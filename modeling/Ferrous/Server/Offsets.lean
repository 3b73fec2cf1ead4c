/-
# `Server.Offsets` — the replication offset and the backlog

The backlog counts bytes and holds the last of them (`Retains`), as long as the
count fits in 64 bits.  The offset of the master counts commands, and a partial
resynchronisation is granted by its reply alone, without the bytes.  So a run
keeps the two coherent exactly if it appends nothing.
-/
import Ferrous.Server.Loop

namespace Ferrous

open Lib

/-! ## The backlog holds the last bytes -/

namespace Backlog

/-- `get_data_from_offset`. -/
def getDataFromOffset (b : Backlog) (offset : Nat) : Option Bytes :=
  if b.covers offset then some (b.buffer.drop (offset - b.startOffset)) else none

/-- The buffer is the end of all bytes ever appended, from its start offset on. -/
structure Retains (b : Backlog) (bytes : Bytes) : Prop where
  start_le : b.startOffset ≤ bytes.length
  buffer : b.buffer = bytes.drop b.startOffset
  size : b.currentSize = b.buffer.length

theorem retains_empty (maxSize : Nat) : (empty maxSize).Retains [] := ⟨le_rfl, rfl, rfl⟩

namespace Retains

variable {b : Backlog} {bytes : Bytes}

/-- The backlog ends where the bytes end. -/
theorem end_eq (h : b.Retains bytes) : b.startOffset + b.currentSize = bytes.length := by
  have hlen := congrArg List.length h.buffer
  rw [List.length_drop] at hlen
  have hle := h.start_le
  have hsize := h.size
  omega

theorem push (h : b.Retains bytes) (hpos : 0 < b.maxSize) (hfits : bytes.length < 2 ^ 64) (x : UInt8) :
    (b.push x).Retains (bytes ++ [x]) := by
  have hend := h.end_eq
  have hsize := h.size
  unfold Backlog.push
  split
  · next hfull =>
      have hne : b.buffer ≠ [] := by
        intro he
        rw [he, List.length_nil] at hsize
        omega
      have hlt : b.startOffset + 1 ≤ bytes.length := by
        have := List.length_pos_iff.mpr hne
        omega
      have hempty : b.buffer.isEmpty = false := by simpa using hne
      simp only [hempty, Bool.false_eq_true, if_false, Nat.mod_eq_of_lt (Nat.lt_of_le_of_lt hlt hfits)]
      refine ⟨?_, ?_, ?_⟩
      · simp only [List.length_append, List.length_singleton]
        omega
      · rw [h.buffer, List.drop_drop, List.drop_append_of_le_length hlt]
      · have := List.length_pos_iff.mpr hne
        simp only [List.length_append, List.length_drop, List.length_singleton]
        omega
  · refine ⟨?_, ?_, ?_⟩
    · simp only [List.length_append, List.length_singleton]
      omega
    · rw [List.drop_append_of_le_length h.start_le, ← h.buffer]
    · simp [hsize]

end Retains

theorem push_maxSize (b : Backlog) (x : UInt8) : (b.push x).maxSize = b.maxSize := by
  unfold push
  split <;> rfl

theorem foldl_push_maxSize (xs : Bytes) (b : Backlog) : (xs.foldl push b).maxSize = b.maxSize := by
  induction xs generalizing b with
  | nil => rfl
  | cons x xs ih => rw [List.foldl_cons, ih, push_maxSize]

/-- A byte after the other. -/
theorem Retains.pushes {b : Backlog} {bytes : Bytes} (xs : Bytes) (hpos : 0 < b.maxSize)
    (hfits : (bytes ++ xs).length < 2 ^ 64) (h : b.Retains bytes) :
    (xs.foldl Backlog.push b).Retains (bytes ++ xs) := by
  induction xs generalizing b bytes with
  | nil => simpa using h
  | cons x xs ih =>
      have hshort : bytes.length < 2 ^ 64 :=
        Nat.lt_of_le_of_lt (List.sublist_append_left bytes (x :: xs)).length_le hfits
      rw [List.append_cons] at hfits ⊢
      exact ih ((b.push_maxSize x).symm ▸ hpos) hfits (h.push hpos hshort x)

/-- What the backlog gives out is what was appended behind the offset. -/
theorem Retains.getDataFromOffset {b : Backlog} {bytes : Bytes} (h : b.Retains bytes) {offset : Nat}
    {data : Bytes} (hdata : b.getDataFromOffset offset = some data) : data = bytes.drop offset := by
  unfold Backlog.getDataFromOffset at hdata
  split at hdata
  · next hc =>
      simp only [covers, Bool.and_eq_true, decide_eq_true_eq] at hc
      obtain rfl := Option.some.inj hdata
      rw [h.buffer, List.drop_drop, Nat.add_sub_cancel' hc.1]
  · cases hdata

end Backlog

/-! ## Runs of a master -/

/-- What moves the replication of a master. -/
inductive Replicating
  /-- A write command that succeeded. -/
  | propagate (parts : Parts)
  /-- A connection is registered as a replica. -/
  | register (id : ConnId) (addr : String)
  /-- A PSYNC request of a connection. -/
  | psync (id : ConnId) (parts : Parts)

/-- A server, and all the bytes ever appended to its backlog. -/
structure Master where
  server : Server
  appended : Bytes

/-- The bytes a propagated command adds to the backlog. -/
def ReplicationManager.appends (m : ReplicationManager) (parts : Parts) : Bytes :=
  if m.isMaster && (RespFrame.list parts).serialize.2 then (RespFrame.list parts).serialize.1 else []

namespace Replicating

variable (env : Env)

/-- One step. -/
def step (m : Master) : Replicating → Master
  | propagate parts =>
      ⟨m.server.propagate true parts (.ok .ok),
        m.appended ++ m.server.replication.appends parts⟩
  | register id addr =>
      ⟨{ m.server with
          replication := (m.server.replication.addReplica id addr).getD m.server.replication },
        m.appended⟩
  | psync id parts => ⟨(Server.handleSyncCommand env true id parts m.server).2, m.appended⟩

/-- The states of a run. -/
def run (m : Master) (es : List Replicating) : Master := es.foldl (step env) m

/-- A propagated command whose frame can be written. -/
def appends : Replicating → Bool
  | propagate parts => (RespFrame.list parts).serialize.2
  | _ => false

end Replicating

/-! ## Coherence -/

/-- The reply that grants a partial resynchronisation. -/
def continueFrame : RespFrame := .simpleString "CONTINUE".toBytes

/-- The offset of a PSYNC request. -/
def psyncOffset (parts : Parts) : Option Nat :=
  ((parts[2]?).bind RespFrame.bulk?).bind fun bytes => parseU64 (fromUtf8Lossy bytes)

/-- The request is granted a partial resynchronisation from an offset. -/
def Granted (m : ReplicationManager) (parts : Parts) (offset : Nat) : Prop :=
  (∃ f, handlePsync m parts = .reply f ∧ f = continueFrame) ∧ psyncOffset parts = some offset

/-- What a PSYNC request puts on its connection: what the handler sends, and
then its reply. -/
def psyncBytes (env : Env) (id : ConnId) (parts : Parts) (s : Server) : Bytes :=
  match Server.handleSyncCommand env true id parts s with
  | (.ok f, s') => ((s'.output id).drop (s.output id).length).flatMap Sent.bytes ++ f.serialize.1
  | _ => []

/-- The offset counts the appended bytes, and a partial resynchronisation sends
those behind the offset it is granted from. -/
structure Master.Coherent (env : Env) (m : Master) : Prop where
  offset : m.server.replication.getReplOffset = m.appended.length
  partialSync : ∀ id parts offset, Granted m.server.replication parts offset →
    psyncBytes env id parts m.server = continueFrame.serialize.1 ++ m.appended.drop offset

/-! ## What a step does -/

namespace Server

variable {env : Env}

theorem foldl_send_replication (item : Sent) (ids : List ConnId) (s : Server) :
    (ids.foldl (fun s id => s.send id item) s).replication = s.replication := by
  induction ids generalizing s with
  | nil => rfl
  | cons id ids ih => rw [List.foldl_cons, ih, send_replication]

/-- What a propagated command leaves of the replication. -/
theorem propagate_replication (parts : Parts) (s : Server) :
    (s.propagate true parts (.ok .ok)).replication =
      (s.replication.propagateCommand (.list parts)).2 :=
  foldl_send_replication _ _ _

/-- A PSYNC request changes the registered replicas at most. -/
theorem handleSyncCommand_replication (env : Env) (id : ConnId) (parts : Parts) (s : Server) :
    (handleSyncCommand env true id parts s).2.replication.role = s.replication.role ∧
      (handleSyncCommand env true id parts s).2.replication.backlog = s.replication.backlog := by
  unfold handleSyncCommand
  rw [if_pos rfl]
  cases handlePsync s.replication parts with
  | reply f => exact ⟨rfl, rfl⟩
  | fail e => exact ⟨rfl, rfl⟩
  | full f =>
      simp only [sendDump]
      split
      · exact ⟨rfl, rfl⟩
      · next c hc =>
          split
          · exact ⟨rfl, rfl⟩
          · next r hr =>
              have hadd : r.role = s.replication.role ∧ r.backlog = s.replication.backlog := by
                unfold ReplicationManager.addReplica at hr
                split at hr
                · cases hr
                  exact ⟨rfl, rfl⟩
                · cases hr
              simp only [Action.storing, onStore]
              split
              · next h =>
                  obtain ⟨-, rfl⟩ := Prod.mk.inj h
                  rw [sendAll_replication]
                  exact hadd
              · next h =>
                  obtain ⟨-, rfl⟩ := Prod.mk.inj h
                  exact hadd
              · next h =>
                  obtain ⟨-, rfl⟩ := Prod.mk.inj h
                  exact hadd

end Server

/-- The bytes of an array are at least its header. -/
theorem two_le_serialize (frames : List RespFrame) :
    2 ≤ (RespFrame.list frames).serialize.1.length := by
  rw [RespFrame.list, RespFrame.serialize, RespFrame.andThen, if_pos rfl, RespFrame.lengthLine]
  simp only [RespFrame.line, List.length_append, List.length_cons, RespFrame.crlf]
  omega

/-- A master after `n` commands were appended to its backlog. -/
structure Master.After (size n : Nat) (m : Master) : Prop where
  role : ∃ replId offset, m.server.replication.role = .master replId offset ∧ offset ≤ n
  bytes : 2 * n ≤ m.appended.length
  fresh : n = 0 → m.appended = [] ∧ m.server.replication.backlog = .empty size
  maxSize : m.server.replication.backlog.maxSize = size
  retains : 0 < size → m.appended.length < 2 ^ 64 → m.server.replication.backlog.Retains m.appended

namespace Master.After

variable {env : Env} {size n : Nat} {m : Master}

/-- Nothing is appended, and the role and the backlog stay. -/
theorem same (h : m.After size n) {s : Server}
    (hrole : s.replication.role = m.server.replication.role)
    (hbacklog : s.replication.backlog = m.server.replication.backlog) :
    Master.After size n ⟨s, m.appended⟩ where
  role := hrole ▸ h.role
  bytes := h.bytes
  fresh hn := ⟨(h.fresh hn).1, hbacklog.trans (h.fresh hn).2⟩
  maxSize := hbacklog ▸ h.maxSize
  retains hpos hfits := hbacklog ▸ h.retains hpos hfits

/-- A command is appended. -/
theorem propagate (h : m.After size n) (parts : Parts) :
    Master.After size (n + if (RespFrame.list parts).serialize.2 then 1 else 0)
      (Replicating.step env m (.propagate parts)) := by
  obtain ⟨replId, offset, hrole, hle⟩ := h.role
  have hmaster : m.server.replication.isMaster = true := by
    rw [ReplicationManager.isMaster, hrole]
  have hprop := Server.propagate_replication parts m.server
  rw [ReplicationManager.propagateCommand, hrole] at hprop
  simp only [Replicating.step, ReplicationManager.appends, hmaster, Bool.true_and]
  cases hw : (RespFrame.list parts).serialize.2 with
  | false =>
      simp only [Backlog.appendCommand, hw, Bool.false_eq_true, if_false] at hprop ⊢
      rw [List.append_nil]
      exact h.same (by rw [hprop]) (by rw [hprop])
  | true =>
      simp only [Backlog.appendCommand, hw, if_true] at hprop ⊢
      have hlen := two_le_serialize parts
      refine ⟨⟨replId, (offset + 1) % 2 ^ 64, by rw [hprop], ?_⟩, ?_, nofun, ?_, fun hpos hfits => ?_⟩
      · exact (Nat.mod_le _ _).trans (Nat.succ_le_succ hle)
      · have hbytes := h.bytes
        simp only [List.length_append]
        omega
      · rw [hprop]
        exact (Backlog.foldl_push_maxSize _ _).trans h.maxSize
      · rw [hprop]
        have hshort : m.appended.length < 2 ^ 64 :=
          Nat.lt_of_le_of_lt (List.sublist_append_left _ _).length_le hfits
        exact Backlog.Retains.pushes _ (h.maxSize ▸ hpos) hfits (h.retains hpos hshort)

theorem step (h : m.After size n) (env : Env) (e : Replicating) :
    Master.After size (n + if e.appends then 1 else 0) (e.step env m) := by
  cases e with
  | propagate parts => exact h.propagate parts
  | register id addr =>
      refine h.same ?_ ?_ <;> simp only [ReplicationManager.addReplica] <;> split <;> rfl
  | psync id parts =>
      obtain ⟨hrole, hbacklog⟩ := Server.handleSyncCommand_replication env id parts m.server
      exact h.same hrole hbacklog

/-- In a run the commands that are appended are counted. -/
theorem run (h : m.After size n) (env : Env) (es : List Replicating) :
    Master.After size (n + es.countP Replicating.appends) (Replicating.run env m es) := by
  induction es generalizing n m with
  | nil => exact h
  | cons e es ih =>
      have hstep := ih (h.step env e)
      rw [List.countP_cons, Nat.add_comm (es.countP _), ← Nat.add_assoc]
      exact hstep

end Master.After

/-! ## Runs that stay coherent -/

/-- A granted offset lies in the backlog. -/
theorem Granted.covers {m : ReplicationManager} {parts : Parts} {offset : Nat}
    (h : Granted m parts offset) : m.backlog.covers offset = true := by
  obtain ⟨⟨f, hf, rfl⟩, hoffset⟩ := h
  simp only [handlePsync] at hf
  split at hf
  · cases hf
  · split at hf
    · cases hf
    · cases hf
    · next id bytes hid hbytes =>
        rw [psyncOffset, hbytes, Option.bind_some] at hoffset
        split at hf
        · cases hf
        · split at hf
          · cases hf
          · split at hf
            · next hknown =>
                have hkept := hknown.2.2
                rw [hoffset] at hkept
                exact hkept
            · cases hf

/-- A master that starts. -/
def Master.initial (e : Engine) (replId : String) (size : Nat) : Master :=
  ⟨Server.initial e replId size, []⟩

theorem Master.after_initial (e : Engine) (replId : String) (size : Nat) :
    (Master.initial e replId size).After size 0 where
  role := ⟨replId, 0, rfl, le_rfl⟩
  bytes := le_rfl
  fresh _ := ⟨rfl, rfl⟩
  maxSize := rfl
  retains _ _ := Backlog.retains_empty size

/-- In every state of a run the backlog gives out the bytes that were appended
behind the offset asked for. -/
theorem Master.run_getDataFromOffset (env : Env) (e : Engine) (replId : String) {size : Nat}
    (hsize : 0 < size) (es : List Replicating)
    (hfits : (Replicating.run env (.initial e replId size) es).appended.length < 2 ^ 64) {offset : Nat}
    {data : Bytes} (hdata : (Replicating.run env (.initial e replId size) es).server.replication.backlog.getDataFromOffset
      offset = some data) :
    data = (Replicating.run env (.initial e replId size) es).appended.drop offset :=
  (((Master.after_initial e replId size).run env es).retains hsize hfits).getDataFromOffset hdata

/-- Before anything is appended the offset is right and no partial
resynchronisation is granted. -/
theorem Master.After.coherent {env : Env} {size : Nat} {m : Master} (h : m.After size 0) :
    m.Coherent env := by
  obtain ⟨replId, offset, hrole, hle⟩ := h.role
  obtain ⟨happended, hbacklog⟩ := h.fresh rfl
  refine ⟨?_, fun id parts o hg => ?_⟩
  · rw [ReplicationManager.getReplOffset, hrole, happended]
    exact Nat.le_zero.mp hle
  · have hc := hg.covers
    rw [hbacklog] at hc
    simp [Backlog.covers, Backlog.empty] at hc

/-- Once a command was appended, the offset is behind the bytes. -/
theorem Master.After.not_coherent {env : Env} {size n : Nat} {m : Master} (h : m.After size (n + 1)) :
    ¬ m.Coherent env := by
  intro hc
  obtain ⟨replId, offset, hrole, hle⟩ := h.role
  have hoffset := hc.offset
  have hbytes := h.bytes
  rw [ReplicationManager.getReplOffset, hrole] at hoffset
  dsimp only at hoffset
  omega

/-- A partial resynchronisation is never sent the bytes it is granted. -/
theorem Granted.not_sent {env : Env} {size n : Nat} {m : Master} (h : m.After size n)
    (hsize : 0 < size) (hfits : m.appended.length < 2 ^ 64) {parts : Parts} {offset : Nat}
    (hg : Granted m.server.replication parts offset) (id : ConnId) :
    psyncBytes env id parts m.server ≠ continueFrame.serialize.1 ++ m.appended.drop offset := by
  have hend := (h.retains hsize hfits).end_eq
  have hc := hg.covers
  simp only [Backlog.covers, Bool.and_eq_true, decide_eq_true_eq] at hc
  obtain ⟨⟨f, hf, rfl⟩, -⟩ := hg
  have hsent : psyncBytes env id parts m.server = continueFrame.serialize.1 := by
    simp only [psyncBytes, Server.handleSyncCommand, if_true, hf, List.drop_length, List.flatMap_nil,
      List.nil_append]
  intro heq
  have hlen := congrArg List.length (hsent.symm.trans heq)
  rw [List.length_append, List.length_drop] at hlen
  omega

/-- A run is coherent in every state exactly if it appends no command. -/
theorem Master.coherent_run_iff (env : Env) (e : Engine) (replId : String) (size : Nat)
    (es : List Replicating) :
    (∀ es', es' <+: es → (Replicating.run env (.initial e replId size) es').Coherent env) ↔
      ∀ r ∈ es, r.appends = false := by
  have hafter (es' : List Replicating) := (Master.after_initial e replId size).run env es'
  constructor
  · intro h r hr
    cases ha : r.appends with
    | false => rfl
    | true =>
        have hpos : 0 < es.countP Replicating.appends := List.countP_pos_iff.mpr ⟨r, hr, ha⟩
        obtain ⟨k, hk⟩ := Nat.exists_eq_succ_of_ne_zero hpos.ne'
        have hrun := hafter es
        rw [hk, Nat.zero_add] at hrun
        exact absurd (h es (List.prefix_refl es)) hrun.not_coherent
  · intro h es' hpre
    have hzero : es'.countP Replicating.appends = 0 :=
      List.countP_eq_zero.mpr fun r hr => by simp [h r (hpre.subset hr)]
    have hrun := hafter es'
    rw [hzero] at hrun
    exact hrun.coherent

/-- The write command `SET k v`. -/
def setCommand : Parts := ["SET", "k", "v"].map .fromString

/-- After `SET k v` the offset is 1 and 27 bytes are in the backlog. -/
theorem Master.set_not_coherent :
    ((Replicating.run (.quiet none) (.initial (.withConfig 1 .unlimited) "0" 1024)
        [.propagate setCommand]).server.replication.getReplOffset = 1 ∧
      (Replicating.run (.quiet none) (.initial (.withConfig 1 .unlimited) "0" 1024)
        [.propagate setCommand]).appended.length = 27) ∧
    ¬ ∀ (env : Env) (e : Engine) (replId : String) (size : Nat) (es : List Replicating),
      (Replicating.run env (.initial e replId size) es).Coherent env := by
  have hrun : (Replicating.run (.quiet none) (.initial (.withConfig 1 .unlimited) "0" 1024)
        [.propagate setCommand]).server.replication.getReplOffset = 1 ∧
      (Replicating.run (.quiet none) (.initial (.withConfig 1 .unlimited) "0" 1024)
        [.propagate setCommand]).appended.length = 27 := by
    decide +kernel
  refine ⟨hrun, fun h => ?_⟩
  have hoffset := (h (.quiet none) (.withConfig 1 .unlimited) "0" 1024 [.propagate setCommand]).offset
  rw [hrun.1, hrun.2] at hoffset
  cases hoffset

end Ferrous
