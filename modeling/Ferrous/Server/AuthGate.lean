/-
# `Server.AuthGate` — what a connection can do before it authenticates

With a password set, a connection that has not given it gets replies that do
not depend on the store, and changes nothing but itself: `process_frame` answers
AUTH, PING and QUIT and refuses the rest.  SYNC and PSYNC are taken out of the
batch before that check, so a master sends its whole data set to whoever asks;
sessions without such a request are the ones the gate holds for.
-/
import Ferrous.Server.Loop

namespace Ferrous

open Lib

namespace Server

variable {env : Env} {s t : Server} {id : ConnId}

/-! ## Sessions -/

/-- The batches one connection sends, one after the other; a batch that fails
ends the connection. -/
def session (env : Env) (id : ConnId) : List (List RespFrame) → Server → Option Server
  | [], s => some s
  | fs :: rest, s =>
      (processConnection env id (.frames fs) s).bind fun r =>
        session env id rest (if r.1 then r.2 else r.2.removeFailed id)

/-- The bytes sent to a connection. -/
def bytesTo (s : Server) (id : ConnId) : Bytes := (s.output id).flatMap Sent.bytes

/-- The same server over other stored data. -/
def withEngine (s : Server) (e : Engine) : Server := { s with world := { s.world with engine := e } }

/-- Nothing but the connection `id` differs. -/
structure Untouched (id : ConnId) (s t : Server) : Prop where
  engine : t.world.engine = s.world.engine
  replication : t.replication = s.replication
  connections : ∀ j ≠ id, t.connections.get? j = s.connections.get? j
  output : ∀ j ≠ id, t.output j = s.output j

/-- The session shows nothing of the stored data and changes nothing but its
own connection, whatever the stored data is. -/
def Confined (env : Env) (id : ConnId) (batches : List (List RespFrame)) (s : Server) : Prop :=
  ∀ e₁ e₂, ∃ t₁ t₂,
    session env id batches (s.withEngine e₁) = some t₁ ∧
    session env id batches (s.withEngine e₂) = some t₂ ∧
    t₁.bytesTo id = t₂.bytesTo id ∧
    Untouched id (s.withEngine e₁) t₁ ∧ Untouched id (s.withEngine e₂) t₂

/-! ## Frames -/

/-- The frame is an AUTH with the password of the server. -/
def GivesPassword (env : Env) : RespFrame → Prop
  | .array (some (first :: rest)) =>
      first.bulk?.bind (fun bytes => Command.parse (Command.cleanName bytes)) = some .auth ∧
        rest.length = 1 ∧ (rest.head?.bind RespFrame.bulk?).bind fromUtf8 = env.password
  | _ => False

/-- The frame makes a master send its data: SYNC, or a PSYNC that cannot be
answered from the backlog. -/
def AsksDump (m : ReplicationManager) (f : RespFrame) : Prop :=
  (frameName f = some .sync ∧ m.isMaster) ∨
    (frameName f = some .psync ∧ ∃ r, handlePsync m (frameParts f) = .full r)

/-- The connection is gone, or has not authenticated. -/
def Outside (id : ConnId) (s : Server) : Prop :=
  ∀ c, s.connections.get? id = some c → c.state ≠ .authenticated

/-- A result that is the same whatever the stored data, and changes no state. -/
def Inert {α : Type} (s : Server) (a : Server → Outcome α × Server) : Prop :=
  ∃ r, r ≠ .panic ∧ ∀ e, a (s.withEngine e) = (r, s.withEngine e)

theorem inert_reply (f : RespFrame) : Inert s (Action.reply f) :=
  ⟨.ok f, nofun, fun _ => rfl⟩

/-- A password that is not the server's changes nothing. -/
theorem inert_handleAuth {first : RespFrame} {rest : Parts} {bytes : Bytes}
    (hb : first.bulk? = some bytes)
    (hc : Command.parse (Command.cleanName bytes) = some .auth)
    (h : ¬ GivesPassword env (.array (some (first :: rest)))) :
    Inert s (handleAuth env id (first :: rest)) := by
  have hname : first.bulk?.bind (fun bytes => Command.parse (Command.cleanName bytes)) =
      some .auth := by
    rw [hb, Option.bind_some, hc]
  unfold handleAuth
  split
  · exact inert_reply _
  · next hlen =>
      have hone : rest.length = 1 := by
        rw [List.length_cons] at hlen
        omega
      have hhead : (first :: rest)[1]? = rest.head? := by
        rw [List.getElem?_cons_succ, List.head?_eq_getElem?]
      split
      · exact inert_reply _
      · next given hgiven =>
          split
          · exact inert_reply _
          · next password hpw =>
              split
              · next heq =>
                  rw [hhead, heq, ← hpw] at hgiven
                  exact absurd ⟨hname, hone, hgiven⟩ h
              · exact inert_reply _

/-- Before authentication the frame is answered without looking at the store. -/
theorem inert_processFrame (hp : env.password.isSome) (hout : s.Outside id) {f : RespFrame}
    (hf : ¬ GivesPassword env f) : Inert s (processFrame env id f) := by
  unfold processFrame
  split
  · next first rest =>
      split
      · exact inert_reply _
      · next bytes hb =>
          cases hconn : s.connections.get? id with
          | none =>
              refine ⟨.ok (.err "ERR connection not found"), nofun, fun e => ?_⟩
              have : (s.withEngine e).connections.get? id = none := hconn
              simp only [processParts, withConnection, this]
          | some c =>
              have hgate : ∀ e, processParts env id (first :: rest)
                  (Command.parse (Command.cleanName bytes)) (s.withEngine e) =
                  beforeAuth env id (first :: rest) (Command.parse (Command.cleanName bytes))
                    (s.withEngine e) := by
                intro e
                have hc : (s.withEngine e).connections.get? id = some c := hconn
                simp only [processParts, withConnection, hc, if_pos (And.intro hp (hout c hconn))]
              suffices hin : Inert s (beforeAuth env id (first :: rest)
                  (Command.parse (Command.cleanName bytes))) by
                obtain ⟨r, hr, hall⟩ := hin
                exact ⟨r, hr, fun e => (hgate e).trans (hall e)⟩
              unfold beforeAuth
              split
              · next hauth => exact inert_handleAuth hb hauth hf
              · exact inert_reply _
              · exact inert_reply _
              · exact inert_reply _
  · exact inert_reply _

/-- A synchronisation command that asks for no dump fails or is answered. -/
theorem inert_handleSyncCommand {f : RespFrame} (psync : Bool)
    (hname : frameName f = some (if psync then .psync else .sync))
    (hd : ¬ AsksDump s.replication f) :
    Inert s (handleSyncCommand env psync id (frameParts f)) := by
  have hrep : ∀ e, (s.withEngine e).replication = s.replication := fun _ => rfl
  cases psync with
  | true =>
      cases hps : handlePsync s.replication (frameParts f) with
      | reply r =>
          refine ⟨.ok r, by rintro ⟨⟩, fun e => ?_⟩
          simp only [handleSyncCommand, if_true, hrep, hps]
      | full r => exact absurd (Or.inr ⟨hname, r, hps⟩) hd
      | fail err =>
          refine ⟨.err err, by rintro ⟨⟩, fun e => ?_⟩
          simp only [handleSyncCommand, if_true, hrep, hps]
  | false =>
      -- only a master answers SYNC; a replica fails when it registers the connection
      have hslave : s.replication.isMaster = false := by
        by_contra hm
        exact hd (Or.inl ⟨hname, by simpa using hm⟩)
      cases hrole : s.replication.role with
      | master replId offset => simp [ReplicationManager.isMaster, hrole] at hslave
      | replica addr offset =>
          have hsync : ∀ e, handleSync env (s.withEngine e) =
              (.ok (.err "ERR wrong role"), s.withEngine e) := by
            intro e
            simp only [handleSync, hrep, hrole]
          cases hconn : s.connections.get? id with
          | none =>
              refine ⟨.err (.connection "Connection not found"), by rintro ⟨⟩, fun e => ?_⟩
              have hc : (s.withEngine e).connections.get? id = none := hconn
              simp only [handleSyncCommand, hsync, sendDump, hc, Bool.false_eq_true, if_false]
          | some c =>
              refine ⟨.err (generic "not a master"), by rintro ⟨⟩, fun e => ?_⟩
              have hc : (s.withEngine e).connections.get? id = some c := hconn
              simp only [handleSyncCommand, hsync, sendDump, hc, Bool.false_eq_true, if_false, hrep,
                ReplicationManager.addReplica, hslave]

theorem inert_answerFrame (hp : env.password.isSome) (hout : s.Outside id) {f : RespFrame}
    (hf : ¬ GivesPassword env f) (hd : ¬ AsksDump s.replication f) :
    Inert s (answerFrame env id f) := by
  unfold answerFrame
  split
  · next hname => exact inert_handleSyncCommand false hname hd
  · next hname => exact inert_handleSyncCommand true hname hd
  · exact inert_processFrame hp hout hf

/-! ## Batches and sessions -/

theorem inert_answerAll (hp : env.password.isSome) (hout : s.Outside id) :
    ∀ {fs : List RespFrame}, (∀ f ∈ fs, ¬ GivesPassword env f) →
      (∀ f ∈ fs, ¬ AsksDump s.replication f) → Inert s (answerAll env id fs)
  | [], _, _ => ⟨.ok [], nofun, fun _ => rfl⟩
  | f :: fs, hf, hd => by
      obtain ⟨r, hr, hfirst⟩ := inert_answerFrame hp hout (hf f List.mem_cons_self)
        (hd f List.mem_cons_self)
      obtain ⟨rs, hrs, hrest⟩ := inert_answerAll hp hout
        (fun g hg => hf g (List.mem_cons_of_mem f hg))
        (fun g hg => hd g (List.mem_cons_of_mem f hg))
      cases r with
      | panic => exact absurd rfl hr
      | err e => exact ⟨.err e, nofun, fun e' => by simp only [answerAll, hfirst]⟩
      | ok r =>
          cases rs with
          | panic => exact absurd rfl hrs
          | err e => exact ⟨.err e, nofun, fun e' => by simp only [answerAll, hfirst, hrest]⟩
          | ok rs => exact ⟨.ok (r :: rs), nofun, fun e' => by simp only [answerAll, hfirst, hrest]⟩

namespace Untouched

theorem refl (id : ConnId) (s : Server) : Untouched id s s := ⟨rfl, rfl, fun _ _ => rfl, fun _ _ => rfl⟩

theorem trans {u : Server} (h : Untouched id s t) (g : Untouched id t u) : Untouched id s u :=
  ⟨g.engine.trans h.engine, g.replication.trans h.replication,
    fun j hj => (g.connections j hj).trans (h.connections j hj),
    fun j hj => (g.output j hj).trans (h.output j hj)⟩

theorem sendAll (s : Server) (id : ConnId) (items : List Sent) : Untouched id s (s.sendAll id items) :=
  ⟨by rw [sendAll_world], by rw [sendAll_replication], fun _ _ => by rw [sendAll_connections],
    fun _ hj => s.output_sendAll_ne id hj items⟩

theorem closeConnection (s : Server) (id : ConnId) : Untouched id s (s.closeConnection id) :=
  ⟨by rw [Server.closeConnection, onConnection_world],
    by rw [Server.closeConnection, onConnection_replication],
    fun _ hj => s.onConnection_get?_ne id hj _,
    fun _ _ => by rw [Server.output, Server.output, Server.closeConnection, onConnection_sent]⟩

theorem removeFailed (s : Server) (id : ConnId) : Untouched id s (s.removeFailed id) := by
  unfold Server.removeFailed
  split
  · exact ⟨rfl, rfl, fun _ hj => Map.get?_del_ne _ hj, fun _ _ => rfl⟩
  · exact refl id s

end Untouched

/-- What ends a batch: the replies are written and the connection may close, or
the batch has failed and the connection goes. -/
def endBatch (id : ConnId) (quit : Bool) (s : Server) : Outcome (List RespFrame) → Server
  | .ok replies =>
      if quit then (s.sendAll id (written replies)).closeConnection id
      else s.sendAll id (written replies)
  | _ => s.removeFailed id

theorem untouched_endBatch (quit : Bool) (r : Outcome (List RespFrame)) :
    Untouched id s (endBatch id quit s r) := by
  cases r with
  | ok replies =>
      cases quit with
      | true => exact (Untouched.sendAll s id _).trans (.closeConnection _ id)
      | false => exact .sendAll s id _
  | err e => exact .removeFailed s id
  | panic => exact .removeFailed s id

/-- A connection that is outside stays outside. -/
theorem outside_endBatch (h : s.Outside id) (quit : Bool) (r : Outcome (List RespFrame)) :
    (endBatch id quit s r).Outside id := by
  have hsend : ∀ items, (s.sendAll id items).Outside id := by
    intro items c hc
    rw [sendAll_connections] at hc
    exact h c hc
  have hremove : (s.removeFailed id).Outside id := by
    intro c hc
    unfold removeFailed at hc
    split at hc
    · simp at hc
    · exact h c hc
  cases r with
  | ok replies =>
      cases quit with
      | true =>
          intro c hc
          simp only [endBatch, if_true, closeConnection, onConnection_get?_self] at hc
          obtain ⟨c', -, rfl⟩ := Option.map_eq_some_iff.mp hc
          rintro ⟨⟩
      | false => exact hsend _
  | err e => exact hremove
  | panic => exact hremove

theorem endBatch_withEngine (e : Engine) (quit : Bool) (r : Outcome (List RespFrame)) :
    endBatch id quit (s.withEngine e) r = (endBatch id quit s r).withEngine e := by
  have hsend : ∀ items, (s.withEngine e).sendAll id items = (s.sendAll id items).withEngine e := by
    intro items
    rw [sendAll_eq, sendAll_eq]
    change (if s.connections.contains id then _ else _) = _
    split <;> rfl
  have hremove : (s.withEngine e).removeFailed id = (s.removeFailed id).withEngine e := by
    unfold removeFailed
    change (if s.connections.contains id then _ else _) = _
    split <;> rfl
  have hclose : ∀ u : Server, (u.withEngine e).closeConnection id =
      (u.closeConnection id).withEngine e := by
    intro u
    cases hc : u.connections.get? id with
    | none =>
        have he : (u.withEngine e).connections.get? id = none := hc
        simp only [closeConnection, onConnection, hc, he]
    | some c =>
        simp only [closeConnection, onConnection, hc, withEngine]
  cases r with
  | ok replies =>
      cases quit with
      | true => simp only [endBatch, if_true, hsend, hclose]
      | false => simp only [endBatch, Bool.false_eq_true, if_false, hsend]
  | err e' => exact hremove
  | panic => exact hremove

/-- One batch from outside has one effect, whatever the stored data. -/
theorem session_cons_inert {fs : List RespFrame} (h : Inert s (answerAll env id fs)) :
    ∃ r, ∀ e rest, session env id (fs :: rest) (s.withEngine e) =
      session env id rest
        ((endBatch id (fs.any (frameName · == some .quit)) s r).withEngine e) := by
  obtain ⟨r, hr, hall⟩ := h
  refine ⟨r, fun e rest => ?_⟩
  rw [← endBatch_withEngine]
  cases r with
  | ok replies => simp [session, processConnection, hall, endBatch]
  | err e' => simp [session, processConnection, hall, endBatch]
  | panic => exact absurd rfl hr

/-- A whole session from outside has one effect, whatever the stored data. -/
theorem session_inert (hp : env.password.isSome) :
    ∀ {batches : List (List RespFrame)} {s : Server}, s.Outside id →
      (∀ fs ∈ batches, ∀ f ∈ fs, ¬ GivesPassword env f) →
      (∀ fs ∈ batches, ∀ f ∈ fs, ¬ AsksDump s.replication f) →
      ∃ t, Untouched id s t ∧ ∀ e, session env id batches (s.withEngine e) = some (t.withEngine e)
  | [], s, _, _, _ => ⟨s, .refl id s, fun _ => rfl⟩
  | fs :: rest, s, hout, hf, hd => by
      obtain ⟨r, hstep⟩ := session_cons_inert (inert_answerAll hp hout
        (hf fs List.mem_cons_self) (hd fs List.mem_cons_self))
      have hun : Untouched id s (endBatch id (fs.any (frameName · == some .quit)) s r) :=
        untouched_endBatch _ r
      obtain ⟨t, ht, hall⟩ := session_inert hp
        (outside_endBatch hout (fs.any (frameName · == some .quit)) r)
        (fun gs hgs => hf gs (List.mem_cons_of_mem fs hgs))
        (by
          intro gs hgs g hg
          rw [hun.replication]
          exact hd gs (List.mem_cons_of_mem fs hgs) g hg)
      exact ⟨t, hun.trans ht, fun e => (hstep e rest).trans (hall e)⟩

/-- With a password set, a session on a connection that has not authenticated
and does not give the password, in which no frame makes a master send its data,
is confined: its replies do not depend on the stored data, and stored data,
replication and all other connections are left as they were. -/
theorem confined_of_no_dump {batches : List (List RespFrame)} (hp : env.password.isSome)
    (hout : s.Outside id)
    (hauth : ∀ fs ∈ batches, ∀ f ∈ fs, ¬ GivesPassword env f)
    (hdump : ∀ fs ∈ batches, ∀ f ∈ fs, ¬ AsksDump s.replication f) :
    Confined env id batches s := by
  intro e₁ e₂
  obtain ⟨t, hun, hall⟩ := session_inert hp hout hauth hdump
  refine ⟨t.withEngine e₁, t.withEngine e₂, hall e₁, hall e₂, rfl, ?_, ?_⟩
  · exact ⟨rfl, hun.replication, hun.connections, hun.output⟩
  · exact ⟨rfl, hun.replication, hun.connections, hun.output⟩

/-- A master whose one connection has not authenticated. -/
def stranger : Server :=
  (initial (Engine.withConfig 1 .unlimited) "0" 16).accept (.quiet (some "secret")) "peer"

/-- A frame with a command and its arguments. -/
def commandFrame (words : List String) : RespFrame := .list (words.map .fromString)

/-- PING and GET of a stranger show nothing. -/
theorem stranger_confined :
    Confined (.quiet (some "secret")) 1 [[commandFrame ["PING"]], [commandFrame ["GET", "k"]]]
      stranger := by
  have hstate : (stranger.connections.get? 1).map (·.state) = some .connected := rfl
  refine confined_of_no_dump (by decide) ?_ ?_ ?_
  · intro c hc
    rw [hc, Option.map_some, Option.some_inj] at hstate
    rw [hstate]
    exact nofun
  · intro fs hfs f hf
    rcases List.mem_pair.mp hfs with rfl | rfl <;> rw [List.mem_singleton.mp hf]
    · exact fun h => absurd h.1 (by decide)
    · exact fun h => absurd h.1 (by decide)
  · intro fs hfs f hf
    rcases List.mem_pair.mp hfs with rfl | rfl <;> rw [List.mem_singleton.mp hf]
    · exact fun h => h.elim (fun g => absurd g.1 (by decide))
        fun g => absurd g.1 (by decide)
    · exact fun h => h.elim (fun g => absurd g.1 (by decide))
        fun g => absurd g.1 (by decide)

/-- SYNC shows a stranger the stored data: the bytes sent differ. -/
theorem stranger_sync_leaks :
    ¬ Confined (.quiet (some "secret")) 1 [[commandFrame ["SYNC"]]] stranger := by
  intro h
  let e₁ := Engine.withConfig 1 .unlimited
  let e₂ := ((Op.key 0 "k".toBytes (.setValue (.string "v".toBytes) none)).run (.at 0) e₁).2
  have hleak : (session (.quiet (some "secret")) 1 [[commandFrame ["SYNC"]]]
      (stranger.withEngine e₁)).map (·.bytesTo 1) ≠
      (session (.quiet (some "secret")) 1 [[commandFrame ["SYNC"]]]
        (stranger.withEngine e₂)).map (·.bytesTo 1) := by
    decide
  obtain ⟨t₁, t₂, h₁, h₂, hbytes, -, -⟩ := h e₁ e₂
  rw [h₁, h₂] at hleak
  exact hleak (congrArg some hbytes)

end Server

end Ferrous
