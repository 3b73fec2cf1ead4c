/-
# `Server.Framing` — replies that keep their place in the stream

A reply is one frame to the client that reads it if its lines hold no line end
and it has no marker in it.  Both are read off the request and the state before
it: which texts come back in a line (`KeepsLines`), and whether a command of a
transaction is silent.
-/
import Ferrous.Server.Echoes

namespace Ferrous

open Lib Args

/-- What the process and its surroundings contribute to replies is on lines of
its own.  A script may answer with any frame without a marker. -/
structure Env.SpeaksLines (env : Env) : Prop where
  lua : ∀ script keys args db,
    (env.lua.eval script keys args db).Returns (fun _ _ _ => True) (fun _ => True) RespFrame.Complete
  slowlog : ∀ n, ∀ f ∈ (env.process n).slowlog, f.Everywhere RespFrame.Unbroken
  saveError : ∀ n e, (env.process n).saveError = some e → Line e.display
  bgsaveError : ∀ n e, (env.process n).bgsaveError = some e → Line e.display
  bgrewriteError : ∀ n e, (env.process n).bgrewriteError = some e → Line e.display
  replId : ∀ n, Line (env.process n).replId

/-- The same surroundings with an interpreter that says nothing. -/
def Env.mute (env : Env) : Env :=
  { env with lua := { eval := fun _ _ _ _ => .ret .ok, scriptLoad := fun _ => .ok "" } }

theorem complete_of_unbroken {f : RespFrame} (h : f.Everywhere RespFrame.Unbroken) : f.Complete := by
  refine h.imp fun g hg => ?_
  rintro rfl
  exact hg

theorem Env.SpeaksLines.complete {env : Env} (E : env.SpeaksLines) : env.Complete :=
  ⟨E.lua, fun n f hf => complete_of_unbroken (E.slowlog n f hf)⟩

theorem Env.SpeaksLines.mute {env : Env} (E : env.SpeaksLines) :
    env.mute.Speaks Line RespFrame.Unbroken (Answered env.ω) where
  answers := answered_step env.ω
  lua _ _ _ _ := .ret wording_line.ok
  scriptLoad := by rintro _ _ ⟨⟩
  slowlog := E.slowlog
  saveError := E.saveError
  bgsaveError := E.bgsaveError
  bgrewriteError := E.bgrewriteError
  replId := E.replId

namespace Server

variable {env : Env} {db : Nat} {parts : Parts} {s : Server} {id : ConnId}

/-! ## Actions that repeat a text -/

theorem line_append_iff {a t : String} (ha : plainText a = true) : Line (a ++ t) ↔ Line t := by
  have h := line_wrap_iff (t := t) (c := "") ha rfl
  rwa [String.append_empty] at h

/-- A subcommand that CLIENT does not know is repeated, and nothing is done. -/
theorem handleClient_unknown {sub : String} (hsub : (parts[1]?).bind word? = some sub)
    (hknown : sub ∉ ["LIST", "KILL", "SETNAME", "GETNAME", "ID", "PAUSE", "UNPAUSE"]) :
    handleClient env id parts s =
      (.ok (.err ("ERR Unknown subcommand or wrong number of arguments for '" ++ sub ++ "'")), s) := by
  obtain ⟨p, hp, hword⟩ := Option.bind_eq_some_iff.mp hsub
  obtain ⟨bytes, hbytes, -⟩ := Option.map_eq_some_iff.mp hword
  have hbulk : (parts[1]?).bind RespFrame.bulk? = some bytes := by rw [hp]; exact hbytes
  unfold handleClient
  rw [arity_of_part hbulk, hsub]
  simp only [bind, Except.bind, pure, Except.pure, Action.reading]
  split
  all_goals first
    | exact absurd (by decide) hknown
    | rfl

theorem handleClient_framed_iff (hs : s.Fluent Line RespFrame.Unbroken) :
    Framed (handleClient env id parts s).1 ↔ ∀ sub, (parts[1]?).bind word? = some sub → Line sub := by
  constructor
  · intro h sub hsub
    by_cases hknown : sub ∈ ["LIST", "KILL", "SETNAME", "GETNAME", "ID", "PAUSE", "UNPAUSE"]
    · exact line_of_mem hknown (by decide)
    · rw [handleClient_unknown hsub hknown] at h
      exact (line_wrap_iff (plainText_of_chars rfl) (plainText_of_chars rfl)).mp h
  · intro h
    refine (speaks_handleClient wording_line (fun t ht => h t ?_) s hs).2
    exact Option.mem_toList.mp (List.mem_filter.mp ht).1

theorem keeps_handleClient (hs : s.Fluent Line RespFrame.Unbroken) :
    s.Keeps Line RespFrame.Unbroken (handleClient env id parts s).2 := by
  by_cases hknown : ∀ t ∈ Command.client.echoed parts, Line t
  · exact (speaks_handleClient wording_line hknown s hs).1
  · push Not at hknown
    obtain ⟨t, ht, -⟩ := hknown
    obtain ⟨hsub, hno⟩ := List.mem_filter.mp ht
    rw [handleClient_unknown (Option.mem_toList.mp hsub) (of_decide_eq_true hno)]
    exact .refl hs

theorem actionReading_framed_iff {α : Type} (args : Args α) {body : α → Action} {P : α → Prop}
    (h : Refuses RespFrame.Unbroken args) (hbody : ∀ a, Framed (body a s).1 ↔ P a) :
    Framed (Action.reading args body s).1 ↔ ∀ a, args = .ok a → P a := by
  cases args with
  | ok a =>
      refine (hbody a).trans ⟨fun hp b hb => ?_, fun hp => hp a rfl⟩
      cases hb
      exact hp
  | error f => exact iff_of_true (h f rfl) (by rintro a ⟨⟩)

/-- The hash of EVALSHA. -/
def evalshaArgs (parts : Parts) : Args String := do
  arity "evalsha" (3 ≤ parts.length)
  match ((parts[1]?).bind RespFrame.bulk?).bind fromUtf8 with
  | some sha1 => return sha1
  | none => reject "ERR invalid SHA1 hash"

theorem refuses_evalshaArgs : Refuses RespFrame.Unbroken (evalshaArgs parts) := by
  refine (wording_line.arity rfl).bind fun _ => ?_
  split
  · exact .pure _
  · exact wording_line.reject rfl

/-- The answer of a program is the answer of the action. -/
theorem storing_reply (p : StoreProg RespFrame) : (Action.storing env p .reply s) = s.onStore env p := by
  unfold Action.storing
  rcases s.onStore env p with ⟨f | e | _, s'⟩ <;> rfl

theorem handleEvalsha_framed_iff :
    Framed (handleEvalsha env parts s).1 ↔
      ∀ sha1, evalshaArgs parts = .ok sha1 → ∀ script, s.scriptCache.get? sha1 = some script →
        scriptKeepsLines env.lua env.ω 0 (.fromString "EVAL" :: .fromString script :: parts.drop 2) s.world := by
  refine actionReading_framed_iff _ refuses_evalshaArgs fun sha1 => ?_
  cases hscript : s.scriptCache.get? sha1 with
  | none => exact iff_of_true (wording_line.err rfl) (by rintro _ ⟨⟩)
  | some script =>
      simp only [Option.some.injEq, forall_eq', storing_reply]
      exact handleEval_framed_iff env.lua

theorem keeps_handleEvalsha (hs : s.Fluent Line RespFrame.Unbroken) :
    s.Keeps Line RespFrame.Unbroken (handleEvalsha env parts s).2 := by
  change s.Keeps _ _ (Action.reading (evalshaArgs parts) _ s).2
  cases evalshaArgs parts with
  | error f => exact .refl hs
  | ok sha1 =>
      simp only [Action.reading]
      split
      · exact .refl hs
      · rw [storing_reply]
        exact .same hs rfl rfl rfl

/-- The subcommand of SCRIPT. -/
def scriptWord (parts : Parts) : Option String :=
  (((parts[1]?).bind RespFrame.bulk?).bind fromUtf8).map toLowercase

/-- The subcommand of SCRIPT, with the checks around it. -/
def scriptArgs (parts : Parts) : Args String := do
  arity "script" (2 ≤ parts.length)
  match ((parts[1]?).bind RespFrame.bulk?).bind fromUtf8 with
  | some sub => return toLowercase sub
  | none => reject "ERR invalid subcommand"

theorem scriptArgs_eq_ok {sub : String} : scriptArgs parts = .ok sub ↔ scriptWord parts = some sub := by
  unfold scriptArgs scriptWord
  cases hbulk : (parts[1]?).bind RespFrame.bulk? with
  | none => exact iff_of_false (fun h => by obtain ⟨-, -, h⟩ := bind_ok h; cases h) (by rintro ⟨⟩)
  | some bytes =>
      rw [arity_of_part hbulk, Option.bind_some]
      cases fromUtf8 bytes with
      | none => exact iff_of_false (by rintro ⟨⟩) (by rintro ⟨⟩)
      | some text =>
          exact ⟨fun h => congrArg some (Except.ok.inj h), fun h => congrArg Except.ok (Option.some.inj h)⟩

theorem refuses_scriptArgs : Refuses RespFrame.Unbroken (scriptArgs parts) := by
  refine (wording_line.arity rfl).bind fun _ => ?_
  split
  · exact .pure _
  · exact wording_line.reject rfl

/-- SCRIPT keeps to its lines. -/
def scriptCommandKeepsLines (env : Env) (parts : Parts) (sub : String) : Prop :=
  Line sub ∧ (sub = "load" → parts.length = 3 → ∀ e, scriptLoad env parts[2]? = .error e → Line e.display)

theorem handleScript_framed_iff :
    Framed (handleScript env parts s).1 ↔
      ∀ sub, scriptWord parts = some sub → scriptCommandKeepsLines env parts sub := by
  have hknown {sub : String} {r : Outcome RespFrame} (h : sub ∈ ["exists", "flush", "kill"]) (hr : Framed r) :
      Framed r ↔ scriptCommandKeepsLines env parts sub := by
    refine iff_of_true hr ⟨line_of_mem h (by decide), ?_⟩
    rintro rfl
    exact absurd h (by decide)
  have harity {sub : List Char} {b : Bool} {body : Unit → Action} (hsub : sub.all plainChar = true)
      (hbody : Framed (body () s).1) : Framed (Action.reading (arity (String.ofList sub) b) body s).1 :=
    (actionReading_framed_iff _ (P := fun _ => True) (wording_line.arity hsub) fun _ => iff_of_true hbody trivial).mpr
      fun _ _ => trivial
  refine (actionReading_framed_iff (scriptArgs parts) (P := scriptCommandKeepsLines env parts)
    refuses_scriptArgs fun sub => ?_).trans ?_
  · split
    · refine (actionReading_framed_iff _ (P := fun _ => ∀ e, scriptLoad env parts[2]? = .error e → Line e.display)
        (wording_line.arity rfl) fun _ => ?_).trans ?_
      · cases hload : scriptLoad env parts[2]? with
        | ok p => exact iff_of_true (wording_line.text p.1) (by rintro _ ⟨⟩)
        | error e =>
            simp only [Except.error.injEq, forall_eq']
            exact line_append_iff (plainText_of_chars rfl)
      · refine ⟨fun h => ⟨line_of_mem (l := ["load"]) (by decide) (by decide), fun _ hlen => h () ?_⟩,
          fun h _ hok => h.2 rfl ?_⟩
        · rw [beq_iff_eq.mpr hlen]
          rfl
        · exact beq_iff_eq.mp (arity_ok hok)
    · exact hknown (by decide) (harity rfl (wording_line.listMap _ _ fun _ => wording_line.flag _))
    · exact hknown (by decide) (harity rfl wording_line.ok)
    · exact hknown (by decide) (harity rfl wording_line.ok)
    · next hload _ _ _ =>
        refine (line_wrap_iff (plainText_of_chars rfl) (plainText_of_chars rfl)).trans ?_
        exact ⟨fun h => ⟨h, fun hsub => absurd hsub hload⟩, And.left⟩
  · exact ⟨fun h sub hsub => h sub (scriptArgs_eq_ok.mpr hsub), fun h sub hsub => h sub (scriptArgs_eq_ok.mp hsub)⟩

theorem keeps_handleScript (hs : s.Fluent Line RespFrame.Unbroken) :
    s.Keeps Line RespFrame.Unbroken (handleScript env parts s).2 := by
  have hreading {α : Type} {args : Args α} {body : α → Action}
      (h : ∀ a, s.Keeps Line RespFrame.Unbroken (body a s).2) :
      s.Keeps Line RespFrame.Unbroken (Action.reading args body s).2 := by
    cases args with
    | ok a => exact h a
    | error f => exact .refl hs
  refine hreading fun sub => ?_
  split
  · refine hreading fun _ => ?_
    split
    · exact .same hs rfl rfl rfl
    · exact .refl hs
  · exact hreading fun _ => .refl hs
  · exact hreading fun _ => .same hs rfl rfl rfl
  · exact hreading fun _ => .refl hs
  · exact .refl hs

/-! ## Commands -/

end Server

/-- The texts that the command repeats on a line of its reply are lines. -/
def Command.KeepsLines (env : Env) (db : Nat) (parts : Parts) (s : Server) : Command → Prop
  | .memory => ∀ sub, (parts[1]?).bind word? = some sub → Line sub
  | .client => ∀ sub, (parts[1]?).bind word? = some sub → Line sub
  | .command => ∀ sub, ((parts[1]?).bind RespFrame.bulk?).bind fromUtf8 = some sub →
      toLowercase sub ∉ ["count", "info"] → Line sub
  | .xinfo => ∀ sub, (parts[1]?).bind word? = some sub → infoKeepsLines env.ω db parts s.world sub
  | .xgroup => ∀ sub, (parts[1]?).bind word? = some sub → groupKeepsLines env.ω db parts s.world sub
  | .xreadgroup => ∀ a, readGroupArgs parts = .ok a →
      readsUnknown env.ω db a.1 a.2.1 a.2.2.1 a.2.2.2 s.world = true → Line a.1
  | .xclaim => ∀ a, claimAllArgs parts = .ok a → unknownGroup env.ω db s.world a.1 a.2.1 = true → Line a.2.1
  | .eval => scriptKeepsLines env.lua env.ω db parts s.world
  | .evalsha => ∀ sha1, Server.evalshaArgs parts = .ok sha1 → ∀ script, s.scriptCache.get? sha1 = some script →
      scriptKeepsLines env.lua env.ω 0 (.fromString "EVAL" :: .fromString script :: parts.drop 2) s.world
  | .script => ∀ sub, Server.scriptWord parts = some sub → Server.scriptCommandKeepsLines env parts sub
  | _ => True

namespace Server

variable {env : Env} {db : Nat} {parts : Parts} {s : Server} {id : ConnId}

/-- A name that is in no table is repeated as well. -/
def KeepsLines (env : Env) (db : Nat) (parts : Parts) (s : Server) : Prop :=
  match (parts.head?).bind RespFrame.bulk? with
  | none => True
  | some bytes =>
      match Command.parse (Command.rawName bytes) with
      | none => Line (Command.rawName bytes)
      | some c => c.KeepsLines env db parts s

/-- What a command leaves behind and answers: the marker where it is silent, and
elsewhere a frame that keeps to its lines if the condition is met. -/
structure HeedsLines (db : Nat) (parts : Parts) (s : Server) (keepsLines : Prop)
    (r : Outcome RespFrame × Server) : Prop where
  keeps : s.Keeps Line RespFrame.Unbroken r.2
  answers : silent db parts s = false → (Framed r.1 ↔ keepsLines)
  marks : silent db parts s = true → keepsLines ∧ (r.1 = .ok .noResponse ∨ r.1 = .panic)

/-- What the command repeats does not depend on the interpreter, but for scripts. -/
theorem dispatch_mute {name : String} {c : Command} (hc : Command.parse name = some c)
    (hscripts : c ∉ [Command.eval, .evalsha, .script]) (s : Server) :
    dispatch env.mute db id parts name s = dispatch env db id parts name s := by
  unfold dispatch
  rw [hc]
  cases c with
  | eval => exact absurd (by decide) hscripts
  | evalsha => exact absurd (by decide) hscripts
  | script => exact absurd (by decide) hscripts
  | _ => rfl

theorem heedsLines_onStore {p : StoreProg RespFrame} {keepsLines : Prop} (hno : silent db parts s = false)
    (hs : s.Fluent Line RespFrame.Unbroken) (h : Framed (p.run (World.step env.ω) s.world).1 ↔ keepsLines) :
    HeedsLines db parts s keepsLines (s.onStore env p) :=
  ⟨.same hs rfl rfl rfl, fun _ => h, fun hyes => absurd (hno.symm.trans hyes) Bool.false_ne_true⟩

/-- The commands that repeat a text, or the reply of a script. -/
def repeating : List Command :=
  [.memory, .client, .command, .xinfo, .xgroup, .xreadgroup, .xclaim, .eval, .evalsha, .script]

theorem heedsLines_dispatch (E : env.SpeaksLines) {bytes : Bytes}
    (hhead : (parts.head?).bind RespFrame.bulk? = some bytes)
    (hparts : ∀ p ∈ parts, p.Everywhere RespFrame.Unbroken) (hs : s.Fluent Line RespFrame.Unbroken) :
    HeedsLines db parts s (KeepsLines env db parts s) (dispatch env db id parts (Command.rawName bytes) s) := by
  have hraw : rawCommand parts = Command.parse (Command.rawName bytes) := by
    rw [rawCommand, hhead, Option.map_some, Option.bind_some]
  unfold KeepsLines
  rw [hhead]
  dsimp only
  cases hc : Command.parse (Command.rawName bytes) with
  | none =>
      rw [hc] at hraw
      have hno : silent db parts s = false := by
        unfold silent
        rw [hraw]
      unfold dispatch
      rw [hc]
      refine ⟨.refl hs, fun _ => ?_, fun hyes => absurd (hno.symm.trans hyes) Bool.false_ne_true⟩
      exact line_wrap_iff (plainText_of_chars rfl) (plainText_of_chars rfl)
  | some c =>
      rw [hc] at hraw
      by_cases hrep : c ∈ repeating
      · have hno : silent db parts s = false := by
          refine silent_of_ne hraw ?_ ?_ ?_
          all_goals
            rintro rfl
            exact absurd hrep (by decide)
        have hserver {a : Action} {keepsLines : Prop} (hkeeps : s.Keeps Line RespFrame.Unbroken (a s).2)
            (h : Framed (a s).1 ↔ keepsLines) : HeedsLines db parts s keepsLines (a s) :=
          ⟨hkeeps, fun _ => h, fun hyes => absurd (hno.symm.trans hyes) Bool.false_ne_true⟩
        unfold dispatch
        rw [hc]
        simp only [repeating, List.mem_cons, List.not_mem_nil, or_false] at hrep
        rcases hrep with rfl | rfl | rfl | rfl | rfl | rfl | rfl | rfl | rfl | rfl
        · exact heedsLines_onStore hno hs (handleMemory_framed_iff env.lay)
        · exact hserver (keeps_handleClient hs) (handleClient_framed_iff hs)
        · exact heedsLines_onStore hno hs handleCommand_framed_iff
        · exact heedsLines_onStore hno hs handleXinfo_framed_iff
        · exact heedsLines_onStore hno hs handleXgroup_framed_iff
        · exact heedsLines_onStore hno hs handleXreadgroup_framed_iff
        · exact heedsLines_onStore hno hs handleXclaim_framed_iff
        · exact heedsLines_onStore hno hs (handleEval_framed_iff env.lua)
        · exact hserver (keeps_handleEvalsha hs) handleEvalsha_framed_iff
        · exact hserver (keeps_handleScript hs) handleScript_framed_iff
      · have hscripts : c ∉ [Command.eval, .evalsha, .script] := fun h =>
          hrep (List.mem_of_mem_drop (i := 7) h)
        have hecho : ∀ t ∈ echoed parts, Line t := by
          unfold echoed
          rw [hhead]
          simp only [hc]
          have hnil : c.echoed parts = [] := by
            cases c with
            | memory => exact absurd (by decide) hrep
            | client => exact absurd (by decide) hrep
            | command => exact absurd (by decide) hrep
            | xinfo => exact absurd (by decide) hrep
            | xgroup => exact absurd (by decide) hrep
            | xreadgroup => exact absurd (by decide) hrep
            | xclaim => exact absurd (by decide) hrep
            | script => exact absurd (by decide) hrep
            | _ => rfl
          rw [hnil]
          exact List.forall_mem_nil _
        have hkeepsLines : c.KeepsLines env db parts s := by
          cases c with
          | memory => exact absurd (by decide) hrep
          | client => exact absurd (by decide) hrep
          | command => exact absurd (by decide) hrep
          | xinfo => exact absurd (by decide) hrep
          | xgroup => exact absurd (by decide) hrep
          | xreadgroup => exact absurd (by decide) hrep
          | xclaim => exact absurd (by decide) hrep
          | eval => exact absurd (by decide) hrep
          | evalsha => exact absurd (by decide) hrep
          | script => exact absurd (by decide) hrep
          | _ => trivial
        have h := @heeds_dispatch env.mute db parts s Line RespFrame.Unbroken _ wording_line
          (answers_answered env.ω) (groupAnswers_answered env.ω) E.mute id bytes hhead hparts hecho hs
        rw [dispatch_mute hc hscripts] at h
        exact ⟨h.keeps, fun hno => iff_of_true (h.answers hno) hkeepsLines,
          fun hyes => ⟨hkeepsLines, h.marks hyes⟩⟩

theorem keepsLines_logCommand (write : Bool) :
    KeepsLines env db parts (logCommand env write parts s) ↔ KeepsLines env db parts s := by
  unfold logCommand
  split
  · exact Iff.rfl
  · exact Iff.rfl

theorem heedsLines_processNormalCommand (E : env.SpeaksLines)
    (hparts : ∀ p ∈ parts, p.Everywhere RespFrame.Unbroken) (hs : s.Fluent Line RespFrame.Unbroken) :
    HeedsLines db parts s (KeepsLines env db parts s) (processNormalCommand env parts db id s) := by
  unfold processNormalCommand
  cases hhead : (parts.head?).bind RespFrame.bulk? with
  | none =>
      have hno : silent db parts s = false := by
        unfold silent rawCommand
        rw [hhead]
        rfl
      have hkeeps : KeepsLines env db parts s := by
        unfold KeepsLines
        rw [hhead]
        trivial
      have herr : Framed (.ok (.err "ERR invalid command format")) := wording_line.err rfl
      dsimp only
      exact ⟨.refl hs, fun _ => iff_of_true herr hkeeps,
        fun hyes => absurd (hno.symm.trans hyes) Bool.false_ne_true⟩
  | some bytes =>
      dsimp only
      generalize ((Command.parse (Command.rawName bytes)).map Command.isWrite).getD false = write
      have hlog : s.Keeps Line RespFrame.Unbroken (logCommand env write parts s) := keeps_logCommand hs _
      have hsame : silent db parts (logCommand env write parts s) = silent db parts s := by
        unfold logCommand
        split <;> rfl
      have h := @heedsLines_dispatch env db parts _ id E bytes hhead hparts hlog.fluent
      rw [keepsLines_logCommand] at h
      generalize logCommand env write parts s = s₁ at hlog hsame h ⊢
      rcases hr : dispatch env db id parts (Command.rawName bytes) s₁ with ⟨r, s₂⟩
      rw [hr] at h
      have hpropagate : s₂.Keeps Line RespFrame.Unbroken (propagate write parts r s₂) :=
        keeps_propagate wording_line hparts h.keeps.fluent write r
      refine ⟨(hlog.trans h.keeps).trans hpropagate, fun hno => ?_, fun hyes => ?_⟩
      · exact h.answers (hsame.trans hno)
      · exact h.marks (hsame.trans hyes)

/-! ## EXEC -/

/-- Every command of the queue keeps to its lines when it is its turn, and none
is silent. -/
def QueueKeepsLines (env : Env) (db : Nat) : List Parts → Server → Prop
  | [], _ => True
  | parts :: rest, s =>
      silent db parts s = false ∧ KeepsLines env db parts s ∧
        QueueKeepsLines env db rest (processNormalCommand env parts db 0 s).2

theorem everywhere_list_iff {fs : List RespFrame} :
    (RespFrame.list fs).Everywhere RespFrame.Unbroken ↔ ∀ f ∈ fs, f.Everywhere RespFrame.Unbroken :=
  ⟨fun h => (RespFrame.everywhere_list.mp h).2, fun h => wording_line.list h⟩

theorem keepsLines_runQueued (E : env.SpeaksLines) (queue : List Parts) (results : List RespFrame)
    (hqueue : ∀ parts ∈ queue, ∀ p ∈ parts, p.Everywhere RespFrame.Unbroken)
    (hs : s.Fluent Line RespFrame.Unbroken) :
    s.Keeps Line RespFrame.Unbroken (runQueued env db queue results s).2 := by
  induction queue generalizing results s with
  | nil => exact .refl hs
  | cons parts rest ih =>
      have hrest := fun ps hps => hqueue ps (List.mem_cons_of_mem _ hps)
      have h : s.Keeps Line RespFrame.Unbroken (processNormalCommand env parts db 0 s).2 :=
        (heedsLines_processNormalCommand E (hqueue parts List.mem_cons_self) hs).keeps
      rw [runQueued]
      dsimp only
      rcases hr : processNormalCommand env parts db 0 s with ⟨f | e | _, s'⟩
      all_goals rw [hr] at h
      · exact h.trans (ih _ hrest h.fluent)
      · exact h.trans (ih _ hrest h.fluent)
      · exact h

/-- A queue that is answered is answered on lines of its own exactly if every
command is. -/
theorem runQueued_framed_iff (E : env.SpeaksLines) (queue : List Parts) (results : List RespFrame)
    (hqueue : ∀ parts ∈ queue, ∀ p ∈ parts, p.Everywhere RespFrame.Unbroken)
    (hs : s.Fluent Line RespFrame.Unbroken) {r : RespFrame} {s' : Server}
    (hr : runQueued env db queue results s = (.ok r, s')) :
    r.Everywhere RespFrame.Unbroken ↔
      (∀ f ∈ results, f.Everywhere RespFrame.Unbroken) ∧ QueueKeepsLines env db queue s := by
  induction queue generalizing results s with
  | nil =>
      cases hr
      exact everywhere_list_iff.trans (and_iff_left trivial).symm
  | cons parts rest ih =>
      have hrest := fun ps hps => hqueue ps (List.mem_cons_of_mem _ hps)
      have h : HeedsLines db parts s (KeepsLines env db parts s) (processNormalCommand env parts db 0 s) :=
        heedsLines_processNormalCommand E (hqueue parts List.mem_cons_self) hs
      rw [QueueKeepsLines]
      rw [runQueued] at hr
      dsimp only at hr
      rcases hp : processNormalCommand env parts db 0 s with ⟨f | e | _, s₁⟩
      all_goals rw [hp] at h hr
      · have hturn : f.Everywhere RespFrame.Unbroken ↔ silent db parts s = false ∧ KeepsLines env db parts s := by
          cases hsil : silent db parts s with
          | true =>
              have hf : f = .noResponse := by
                rcases (h.marks hsil).2 with hf | hf
                · exact Outcome.ok.inj hf
                · cases hf
              rw [hf]
              exact iff_of_false (fun hf => hf.here) fun hf => Bool.noConfusion hf.1
          | false => exact (h.answers hsil).trans (and_iff_right rfl).symm
        rw [ih (results ++ [f]) hrest h.keeps.fluent hr, List.forall_mem_append, List.forall_mem_singleton, hturn,
          and_assoc, and_assoc]
      · have hturn : (RespFrame.err e.display).Everywhere RespFrame.Unbroken ↔
            silent db parts s = false ∧ KeepsLines env db parts s := by
          cases hsil : silent db parts s with
          | true => rcases (h.marks hsil).2 with hf | hf <;> cases hf
          | false => exact (h.answers hsil).trans (and_iff_right rfl).symm
        rw [ih (results ++ [.err e.display]) hrest h.keeps.fluent hr, List.forall_mem_append,
          List.forall_mem_singleton, hturn, and_assoc, and_assoc]
      · cases hr

/-- The transaction of EXEC, where it is run, keeps to its lines. -/
def ExecKeepsLines (env : Env) (id : ConnId) (conn : Connection) (s : Server) : Prop :=
  conn.transactionState.inTransaction = true → conn.transactionState.aborted = false →
    ∀ s', s.onStore env (checkWatched conn.dbIndex conn.transactionState.watchedKeys.toPairs) = (.ok false, s') →
      QueueKeepsLines env conn.dbIndex conn.transactionState.queuedCommands (s'.setTransaction id {})

theorem handleExec_framed_iff (E : env.SpeaksLines) {conn : Connection} (hconn : s.connections.get? id = some conn)
    (hs : s.Fluent Line RespFrame.Unbroken) :
    s.Keeps Line RespFrame.Unbroken (handleExec env id s).2 ∧
      ∀ r s', handleExec env id s = (.ok r, s') →
        (r = .noResponse ∨ r.Everywhere RespFrame.Unbroken ↔ ExecKeepsLines env id conn s) := by
  have hqueue : ∀ parts ∈ conn.transactionState.queuedCommands, ∀ p ∈ parts, p.Everywhere RespFrame.Unbroken :=
    hs.queued id conn hconn
  have hworld (w : World) : s.Keeps Line RespFrame.Unbroken { s with world := w } := .same hs rfl rfl rfl
  have hset (w : World) : s.Keeps Line RespFrame.Unbroken (({ s with world := w } : Server).setTransaction id {}) :=
    (hworld w).trans (.onConnection (hworld w).fluent _ fun _ _ => List.forall_mem_nil _)
  have hno {r : RespFrame} (h : ExecKeepsLines env id conn s) (hr : r.Everywhere RespFrame.Unbroken) :
      r = .noResponse ∨ r.Everywhere RespFrame.Unbroken ↔ ExecKeepsLines env id conn s := iff_of_true (.inr hr) h
  unfold handleExec
  rw [hconn]
  dsimp only
  cases htx : conn.transactionState.inTransaction with
  | false =>
      refine ⟨.refl hs, ?_⟩
      rintro r s' ⟨⟩
      refine hno (fun h => ?_) (wording_line.err rfl)
      rw [htx] at h
      cases h
  | true =>
      simp only [Bool.not_true, Bool.false_eq_true, if_false, Action.storing, onStore]
      rcases hr : (checkWatched conn.dbIndex conn.transactionState.watchedKeys.toPairs).run
        (World.step env.ω) s.world with ⟨violated | e | _, w⟩
      · have hchecked : s.onStore env (checkWatched conn.dbIndex conn.transactionState.watchedKeys.toPairs) =
            (.ok violated, { s with world := w }) := by rw [onStore, hr]
        cases violated with
        | true =>
            refine ⟨hset w, ?_⟩
            rintro r s' ⟨⟩
            refine hno (fun _ _ s' h => ?_) wording_line.nullArray
            rw [hchecked] at h
            cases h
        | false =>
            dsimp only
            cases habort : conn.transactionState.aborted with
            | true =>
                refine ⟨hset w, ?_⟩
                rintro r s' ⟨⟩
                refine hno (fun _ h => ?_) wording_line.nullArray
                rw [habort] at h
                cases h
            | false =>
                simp only [Bool.or_false, Bool.false_eq_true, if_false]
                refine ⟨(hset w).trans (keepsLines_runQueued E _ [] hqueue (hset w).fluent), fun r s' hrun => ?_⟩
                have hlist : r ≠ .noResponse := by
                  have h := @runQueued_list env conn.dbIndex conn.transactionState.queuedCommands []
                    (({ s with world := w } : Server).setTransaction id {})
                  rw [hrun] at h
                  rcases h with h | ⟨fs, h⟩
                  · cases h
                  · cases h
                    exact RespFrame.noConfusion
                rw [or_iff_right hlist, runQueued_framed_iff E _ [] hqueue (hset w).fluent hrun]
                refine ⟨fun h _ _ s' hs' => ?_, fun h => ⟨List.forall_mem_nil _, h htx habort _ hchecked⟩⟩
                rw [hchecked] at hs'
                cases hs'
                exact h.2
      · refine ⟨hworld w, ?_⟩
        rintro r s' ⟨⟩
      · refine ⟨hworld w, ?_⟩
        rintro r s' ⟨⟩

/-! ## Frames -/

/-- The command is carried out at once, and not queued, held back or one of
those in front of the table. -/
def carriedOut (env : Env) (s : Server) (id : ConnId) (conn : Connection) (f : RespFrame) : Bool :=
  (frameName f != some .sync && frameName f != some .psync) &&
    ((cleanCommand f).bind (immediate env id (frameParts f))).isNone &&
    !conn.transactionState.inTransaction && !s.held env (cleanCommand f)

/-- The texts that a frame brings back on a line of its reply are lines: those
of its own command, or those of a queue that it runs. -/
def FrameKeepsLines (env : Env) (s : Server) (id : ConnId) (f : RespFrame) : Prop :=
  ∀ conn, s.connections.get? id = some conn → admitted env conn = true →
    (cleanCommand f = some .exec → ExecKeepsLines env id conn s) ∧
      (carriedOut env s id conn f = true → KeepsLines env conn.dbIndex (frameParts f) s)

/-- What a frame leaves behind, and when its reply keeps to its lines. -/
structure OnLines (s : Server) (keepsLines : Prop) (r : Outcome RespFrame × Server) : Prop where
  keeps : s.Keeps Line RespFrame.Unbroken r.2
  answers : ∀ f, r.1 = .ok f → (f = .noResponse ∨ f.Everywhere RespFrame.Unbroken ↔ keepsLines)

theorem OnLines.of_said {keepsLines : Prop} {r : Outcome RespFrame × Server} (h : keepsLines)
    (hr : s.Keeps Line RespFrame.Unbroken r.2 ∧ (r.1 = .ok .noResponse ∨ Framed r.1)) : OnLines s keepsLines r := by
  refine ⟨hr.1, fun f hf => iff_of_true ?_ h⟩
  rw [hf] at hr
  exact hr.2.imp_left Outcome.ok.inj

theorem OnLines.of_heeds {keepsLines : Prop} {r : Outcome RespFrame × Server}
    (h : HeedsLines db parts s keepsLines r) (hno : silent db parts s = false → r.1 ≠ .ok .noResponse) :
    OnLines s keepsLines r := by
  refine ⟨h.keeps, fun f hf => ?_⟩
  cases hsil : silent db parts s with
  | true =>
      obtain ⟨hlines, hmark⟩ := h.marks hsil
      rw [hf] at hmark
      refine iff_of_true (.inl ?_) hlines
      rcases hmark with hmark | hmark
      · exact Outcome.ok.inj hmark
      · cases hmark
  | false =>
      rw [← h.answers hsil, hf]
      refine ⟨fun hr => hr.resolve_left ?_, .inr⟩
      rintro rfl
      exact hno hsil hf

/-- What is carried out in front of the queue is answered on lines of its own. -/
theorem framed_immediate (E : env.SpeaksLines) {c : Command} {a : Action}
    (h : immediate env id parts c = some a) (hexec : c ≠ .exec) (hs : s.Fluent Line RespFrame.Unbroken) :
    s.Keeps Line RespFrame.Unbroken (a s).2 ∧ ((a s).1 = .ok .noResponse ∨ Framed (a s).1) := by
  have hmute {a' : Action} (h' : immediate env.mute id parts c = some a') (ha : a' = a) :
      s.Keeps Line RespFrame.Unbroken (a s).2 ∧ ((a s).1 = .ok .noResponse ∨ Framed (a s).1) :=
    ha ▸ speaks_immediate wording_line E.mute h' hexec hs
  cases c with
  | exec => exact absurd rfl hexec
  | watch =>
      have hw := @speaks_handleWatch _ _ wording_line env id parts s hs
      exact Option.some.inj h ▸ ⟨hw.1, .inr hw.2⟩
  | _ => first
      | exact hmute rfl (Option.some.inj h)
      | cases h

/-- What is not silent has an answer. -/
theorem answers_processNormalCommand (E : env.SpeaksLines) (hparts : ∀ p ∈ parts, p.Everywhere RespFrame.Unbroken)
    (hs : s.Fluent Line RespFrame.Unbroken) (hno : silent db parts s = false) :
    (processNormalCommand env parts db id s).1 ≠ .ok .noResponse := by
  have hfluent : s.Fluent (fun _ => True) (· ≠ .noResponse) :=
    ⟨fun i c hget ps hps p hp => complete_of_unbroken (hs.queued i c hget ps hps p hp), fun _ _ _ => trivial⟩
  have h : Heeds (fun _ => True) (· ≠ .noResponse) db parts s (processNormalCommand env parts db id s) :=
    heeds_processNormalCommand wording_complete answers_any groupAnswers_any E.complete.speaks
      (fun p hp => complete_of_unbroken (hparts p hp)) (fun _ _ => trivial) hfluent
  intro hr
  have hsaid := h.answers hno
  rw [hr] at hsaid
  exact hsaid.here rfl

theorem onLines_processParts (E : env.SpeaksLines) {f : RespFrame}
    (hf : ∀ p ∈ frameParts f, p.Everywhere RespFrame.Unbroken) (hexec : cleanCommand f ≠ some .exec)
    (hsync : frameName f ≠ some .sync) (hpsync : frameName f ≠ some .psync)
    (hs : s.Fluent Line RespFrame.Unbroken) :
    OnLines s (FrameKeepsLines env s id f) (processParts env id (frameParts f) (cleanCommand f) s) := by
  have hplain {a : Action} (hlines : FrameKeepsLines env s id f) (ha : a.Speaks Line RespFrame.Unbroken) :
      OnLines s (FrameKeepsLines env s id f) (a s) := .of_said hlines ⟨(ha s hs).1, .inr (ha s hs).2⟩
  unfold processParts withConnection
  cases hconn : s.connections.get? id with
  | none =>
      refine .of_said (fun conn h => ?_) ⟨.refl hs, .inr (wording_line.err rfl)⟩
      rw [hconn] at h
      cases h
  | some conn =>
      have hlines (h : carriedOut env s id conn f = true → KeepsLines env conn.dbIndex (frameParts f) s) :
          FrameKeepsLines env s id f := by
        intro conn' h' _
        rw [hconn] at h'
        cases h'
        exact ⟨fun h => absurd h hexec, h⟩
      have hnot (h : carriedOut env s id conn f = false) : FrameKeepsLines env s id f := by
        refine hlines fun hyes => ?_
        rw [h] at hyes
        cases hyes
      dsimp only
      by_cases hauth : env.password.isSome ∧ conn.state ≠ .authenticated
      · rw [if_pos hauth]
        refine hplain (fun conn' h' had => ?_) (speaks_beforeAuth wording_line _ hf)
        rw [hconn] at h'
        cases h'
        simp [admitted, hauth.1, hauth.2] at had
      · have hadmitted : admitted env conn = true := by
          by_contra h
          exact hauth (by simpa [admitted, Option.isSome_iff_ne_none] using h)
        rw [if_neg hauth, afterAuth]
        cases himm : (cleanCommand f).bind (immediate env id (frameParts f)) with
        | some a =>
            obtain ⟨c, hc, ha⟩ := Option.bind_eq_some_iff.mp himm
            refine .of_said (hnot ?_) (framed_immediate E ha (fun h => hexec (h ▸ hc)) hs)
            simp [carriedOut, himm]
        | none =>
            dsimp only
            cases htx : conn.transactionState.inTransaction with
            | true =>
                refine hplain (hnot ?_) (speaks_queueCommand wording_line hf)
                simp [carriedOut, htx]
            | false =>
                rw [if_neg Bool.false_ne_true]
                cases hheld : s.held env (cleanCommand f) with
                | true =>
                    refine .of_said (hnot ?_) ⟨.refl hs, .inr (wording_line.err rfl)⟩
                    simp [carriedOut, hheld]
                | false =>
                    have hout : carriedOut env s id conn f = true := by
                      simp [carriedOut, himm, htx, hheld, hsync, hpsync]
                    rw [if_neg Bool.false_ne_true]
                    have h : OnLines s (KeepsLines env conn.dbIndex (frameParts f) s)
                        (processNormalCommand env (frameParts f) conn.dbIndex id s) :=
                      .of_heeds (heedsLines_processNormalCommand E hf hs) (answers_processNormalCommand E hf hs)
                    refine ⟨h.keeps, fun r hr => (h.answers r hr).trans ⟨fun hk => hlines fun _ => hk, ?_⟩⟩
                    intro hk
                    exact (hk conn hconn hadmitted).2 hout

/-- A frame whose first part is no bulk string is refused, on a line. -/
theorem processFrame_shape (env : Env) (id : ConnId) (f : RespFrame) :
    ((frameParts f).head?.bind RespFrame.bulk? = none ∧
        ∃ cs : List Char, cs.all plainChar = true ∧ processFrame env id f = .error (String.ofList cs)) ∨
      processFrame env id f = processParts env id (frameParts f) (cleanCommand f) := by
  unfold processFrame
  split
  · next first rest =>
      cases hb : first.bulk? with
      | none => exact .inl ⟨hb, _, rfl, rfl⟩
      | some bytes =>
          refine .inr ?_
          simp only [cleanCommand, frameParts, List.head?_cons, Option.bind_some, hb]
  · next hno =>
      refine .inl ⟨?_, _, rfl, rfl⟩
      unfold frameParts
      split
      · next parts =>
          cases parts with
          | nil => rfl
          | cons first rest => exact absurd rfl (hno first rest)
      · rfl

/-- What a frame leaves behind, and when its reply keeps to its lines. -/
theorem onLines_answerFrame (E : env.SpeaksLines) {f : RespFrame}
    (hf : ∀ p ∈ frameParts f, p.Everywhere RespFrame.Unbroken) (hs : s.Fluent Line RespFrame.Unbroken) :
    OnLines s (FrameKeepsLines env s id f) (answerFrame env id f s) := by
  by_cases hexec : cleanCommand f = some .exec
  · have hgate := @answerFrame_immediate env id s f _ _ hexec rfl nofun
    rw [hgate]
    cases hconn : s.connections.get? id with
    | none =>
        refine .of_said (fun conn h => ?_) ⟨.refl hs, .inr (wording_line.err rfl)⟩
        rw [hconn] at h
        cases h
    | some conn =>
        dsimp only
        cases hadmitted : admitted env conn with
        | false =>
            refine .of_said (fun conn' h' had => ?_) ⟨.refl hs, .inr (wording_line.err rfl)⟩
            rw [hconn] at h'
            cases h'
            rw [hadmitted] at had
            cases had
        | true =>
            have hlines : FrameKeepsLines env s id f ↔ ExecKeepsLines env id conn s := by
              constructor
              · exact fun h => (h conn hconn hadmitted).1 hexec
              · intro h conn' h' _
                rw [hconn] at h'
                cases h'
                refine ⟨fun _ => h, fun hout => ?_⟩
                simp [carriedOut, hexec, immediate] at hout
            obtain ⟨hkeeps, hiff⟩ := handleExec_framed_iff E hconn hs
            rw [if_pos rfl]
            refine ⟨hkeeps, fun r hr => ?_⟩
            rw [hlines, ← hiff r _ (Prod.ext hr rfl)]
  · by_cases hname : frameName f = some .sync ∨ frameName f = some .psync
    · obtain ⟨psync, h⟩ : ∃ psync, answerFrame env id f = handleSyncCommand env psync id (frameParts f) := by
        unfold answerFrame
        rcases hname with h | h
        · rw [h]
          exact ⟨false, rfl⟩
        · rw [h]
          exact ⟨true, rfl⟩
      have hsync := @speaks_handleSyncCommand Line RespFrame.Unbroken _ wording_line (answers_answered env.ω)
        env.mute E.mute id (frameParts f) psync s hs
      rw [h]
      refine .of_said (fun conn _ _ => ⟨fun h => absurd h hexec, fun hout => ?_⟩) ⟨hsync.1, .inr hsync.2⟩
      rcases hname with h | h
      · simp [carriedOut, h] at hout
      · simp [carriedOut, h] at hout
    · obtain ⟨hsync, hpsync⟩ := not_or.mp hname
      rw [answerFrame_of_ne hsync hpsync]
      rcases processFrame_shape env id f with ⟨hnone, msg, hmsg, h⟩ | h
      · rw [h]
        refine .of_said (fun conn _ _ => ⟨fun h => absurd h hexec, fun _ => ?_⟩)
          ⟨.refl hs, .inr (wording_line.err hmsg)⟩
        unfold KeepsLines
        rw [hnone]
        trivial
      · rw [h]
        exact onLines_processParts E hf hexec hsync hpsync hs

/-! ## Runs -/

/-- What a connection received has no marker and no broken line in it. -/
theorem unbroken_received {f : RespFrame} (h : (LoopEvent.command id f).Received) :
    ∀ p ∈ frameParts f, p.Everywhere RespFrame.Unbroken := by
  obtain ⟨p, p', hp⟩ := h
  have hf := RespParser.parse_unbroken hp
  unfold frameParts
  split
  · exact (RespFrame.everywhere_list.mp hf).2
  · exact List.forall_mem_nil _

theorem OnLines.step (E : env.SpeaksLines) {s' : Server} {ev : LoopEvent} (hs : s.Fluent Line RespFrame.Unbroken)
    (hev : ev.Received) (h : ev.step env s = some s') :
    s'.Fluent Line RespFrame.Unbroken ∧
      ((∀ id items, ev ≠ .replies id items) → s.Keeps Line RespFrame.Unbroken s') := by
  by_cases hcommand : ∃ i f, ev = .command i f
  · obtain ⟨i, f, rfl⟩ := hcommand
    obtain ⟨-, rfl⟩ := command_eq h
    have hkeeps := (@onLines_answerFrame env s i E f (unbroken_received hev) hs).keeps
    exact ⟨hkeeps.fluent, fun _ => hkeeps⟩
  by_cases hreplies : ∃ i items, ev = .replies i items
  · obtain ⟨i, items, rfl⟩ := hreplies
    obtain rfl := Option.some.inj h
    refine ⟨⟨fun j c hget => ?_, fun replId offset hrole => ?_⟩, fun hno => absurd rfl (hno i items)⟩
    · exact hs.queued j c (sendAll_connections s i items ▸ hget)
    · exact hs.role replId offset (@sendAll_replication s i items ▸ hrole)
  have hkeeps := keeps_step wording_line hs h (fun i f hf => hcommand ⟨i, f, hf⟩)
    fun i items hi => hreplies ⟨i, items, hi⟩
  exact ⟨hkeeps.fluent, fun _ => hkeeps⟩

theorem fluent_lines {replId : String} (h : Line replId) (e : Engine) (backlogSize : Nat) :
    (initial e replId backlogSize).Fluent Line RespFrame.Unbroken where
  queued i c hget := by
    rw [initial, Map.get?_empty] at hget
    cases hget
  role replId' offset hrole := by
    cases hrole
    exact h

/-- In every run, a reply is one frame to whoever reads it, whatever follows,
exactly if the texts that its request brings back are lines and no command of
its queue is silent; what is sent without a request is such a frame anyway. -/
theorem replies_framed_iff (env : Env) (E : env.SpeaksLines) (e : Engine) (replId : String) (hreplId : Line replId)
    (backlogSize : Nat) (es : List LoopEvent) (s : Server)
    (h : Lib.Runs (fun _ ev => ev.Received) (LoopEvent.step env) (initial e replId backlogSize) es s) :
    (∀ id f r s', (LoopEvent.command id f).Received → answerFrame env id f s = (.ok r, s') →
        r.Everywhere RespFrame.Held → (r = .noResponse ∨ r.WellFramed ↔ FrameKeepsLines env s id f)) ∧
      ∀ (ev : LoopEvent) s', ev.Received → (∀ id items, ev ≠ .replies id items) → ev.step env s = some s' →
        ∃ items, s'.sent = s.sent ++ items ∧
          ∀ p ∈ items, ∀ f, p.2 = .frame f → f.Everywhere RespFrame.Held → f.WellFramed := by
  have hs : s.Fluent Line RespFrame.Unbroken :=
    h.inv (fun _ _ _ hs hev hstep => (OnLines.step E hs hev hstep).1) (fluent_lines hreplId e backlogSize)
  refine ⟨fun id f r s' hev hr hheld => ?_, fun ev s' hev hreplies hstep => ?_⟩
  · rw [RespFrame.wellFramed_iff hheld]
    exact (onLines_answerFrame E (unbroken_received hev) hs).answers r (by rw [hr])
  · obtain ⟨items, hsent, hitems⟩ := ((OnLines.step E hs hev hstep).2 hreplies).adds
    exact ⟨items, hsent, fun p hp f hf hheld => (RespFrame.wellFramed_iff hheld).mpr (hitems p hp f hf)⟩

theorem speaksLines_quiet : (Env.quiet none).SpeaksLines where
  lua := complete_quiet.lua
  slowlog _ := List.forall_mem_nil _
  saveError _ _ h := by cases h
  bgsaveError _ _ h := by cases h
  bgrewriteError _ _ h := by cases h
  replId _ := line_of_plainText (t := "0") (plainText_of_chars rfl)

/-- The name of a command that does not exist may end the line it is repeated
in. -/
theorem replies_framed_iff_unknown :
    ∃ s r s', Lib.Runs (fun _ ev => LoopEvent.Received ev) (LoopEvent.step (.quiet none)) (initial Engine.new "0" 16)
        [.accept "a"] s ∧
      (LoopEvent.command 1 (.list (words ["FOO\r\n+OK"]))).Received ∧
      answerFrame (.quiet none) 1 (.list (words ["FOO\r\n+OK"])) s = (.ok r, s') ∧ ¬ r.WellFramed := by
  have hrun : Lib.Runs (fun _ ev => LoopEvent.Received ev) (LoopEvent.step (.quiet none))
      (initial Engine.new "0" 16) [.accept "a"] (accept (.quiet none) (initial Engine.new "0" 16) "a") :=
    .cons trivial rfl .nil
  have hreceived : (LoopEvent.command 1 (.list (words ["FOO\r\n+OK"]))).Received :=
    received_list (wire_words (by decide) (by decide))
  have hreply : answerFrame (.quiet none) 1 (.list (words ["FOO\r\n+OK"]))
      (accept (.quiet none) (initial Engine.new "0" 16) "a") =
        (.ok (unknownCommand "FOO\r\n+OK"), accept (.quiet none) (initial Engine.new "0" 16) "a") := rfl
  have hiff := (replies_framed_iff (.quiet none) speaksLines_quiet Engine.new "0"
    (line_of_plainText (plainText_of_chars rfl)) 16 _ _ hrun).1 1 _ _ _ hreceived hreply trivial
  refine ⟨_, _, _, hrun, hreceived, hreply, fun hframed => ?_⟩
  have hline : Line "FOO\r\n+OK" := (hiff.mp (.inr hframed) _ rfl rfl).2 rfl
  exact hline ⟨"FOO".toBytes, "+OK".toBytes, rfl⟩

end Server

end Ferrous
