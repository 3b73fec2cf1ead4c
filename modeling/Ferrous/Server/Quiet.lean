/-
# `Server.Quiet` — orderly runs keep sleepers quiet

The log of a connection can be read by the rules of `Lib.Dialogue` as long as
the run is orderly.  `frame_spec` says what one frame adds, `batch_spec` and
`input_spec` what a batch adds; `Sound` is the invariant of the loop: a
connection sleeps exactly if its log says so, unless it is gone or about to be
removed.
-/
import Ferrous.Server.Logged
import Ferrous.Server.Requests

namespace Ferrous

open Lib Args Dialogue

namespace Server

variable {env : Env} {id : ConnId} {s : Server}

/-! ## Frames that are answered at once -/

/-- The gate in front of a command that is neither queued nor paused. -/
theorem answerFrame_immediate {f : RespFrame} {c : Command} {a : Action} (hc : cleanCommand f = some c)
    (ha : immediate env id (frameParts f) c = some a) (hauth : c ≠ .auth) :
    answerFrame env id f s =
      match s.connections.get? id with
      | none => (.ok (.err "ERR connection not found"), s)
      | some conn => if admitted env conn then a s else (.ok (.err "NOAUTH Authentication required"), s) := by
  have hne {c' : Command} (hc' : immediate env id (frameParts f) c' = none) : frameName f ≠ some c' := by
    intro h
    rw [cleanCommand_of_frameName h] at hc
    cases hc
    rw [ha] at hc'
    cases hc'
  rw [answerFrame_of_ne (hne rfl) (hne rfl)]
  obtain ⟨bytes, hb, hparse⟩ := Option.bind_eq_some_iff.mp hc
  obtain ⟨first, hfirst, hbulk⟩ := Option.bind_eq_some_iff.mp hb
  unfold frameParts at hfirst
  split at hfirst
  · next parts =>
      obtain ⟨rest, rfl⟩ : ∃ rest, parts = first :: rest := by
        cases parts with
        | nil => cases hfirst
        | cons p rest => exact ⟨rest, by rw [Option.some.inj hfirst]⟩
      simp only [processFrame, hbulk, hparse, processParts, withConnection]
      cases s.connections.get? id with
      | none => rfl
      | some conn =>
          dsimp only
          by_cases hno : env.password.isSome ∧ conn.state ≠ .authenticated
          · have had : ¬ admitted env conn = true := by simp [admitted, hno.1, hno.2]
            rw [if_pos hno, if_neg had]
            cases c with
            | auth => exact absurd rfl hauth
            | ping => cases ha
            | quit => cases ha
            | _ => rfl
          · have had : admitted env conn = true := by
              by_contra h
              exact hno (by simpa [admitted, Option.isSome_iff_ne_none] using h)
            rw [if_neg hno, if_pos had, afterAuth, Option.bind_some]
            have ha' : immediate env id (first :: rest) c = some a := ha
            rw [ha']
  · cases hfirst

/-- A subscription command with good arguments sends its confirmations and has
no answer; with others it sends nothing. -/
theorem subscription_cases {f : RespFrame} {c : Command} (s : Server) (hc : cleanCommand f = some c)
    (hmem : c ∈ [Command.subscribe, .unsubscribe, .psubscribe, .punsubscribe]) :
    ∃ a, immediate env id (frameParts f) c = some a ∧ c ≠ .auth ∧
      (subscriptionArgs (frameParts f) (some c) = true → (a s).1 = .ok .noResponse) ∧
      (subscriptionArgs (frameParts f) (some c) = false → (a s).2 = s) := by
  have hsub (word : String) (kind : PubSubManager.Kind) :
      ((decide (2 ≤ (frameParts f).length) && (bulks (kindWord kind) ((frameParts f).drop 1)).isOk) = true →
        (subscribing word kind id (frameParts f) s).1 = .ok .noResponse) ∧
      ((decide (2 ≤ (frameParts f).length) && (bulks (kindWord kind) ((frameParts f).drop 1)).isOk) = false →
        (subscribing word kind id (frameParts f) s).2 = s) := by
    unfold subscribing arity
    cases hlen : decide (2 ≤ (frameParts f).length) with
    | false => exact ⟨nofun, fun _ => rfl⟩
    | true =>
        cases hb : bulks (kindWord kind) ((frameParts f).drop 1) with
        | error g => exact ⟨nofun, fun _ => rfl⟩
        | ok names => exact ⟨fun _ => rfl, nofun⟩
  have hunsub (word : String) (kind : PubSubManager.Kind) :
      ((bulks (kindWord kind) ((frameParts f).drop 1)).isOk = true →
        (unsubscribing word kind id (frameParts f) s).1 = .ok .noResponse) ∧
      ((bulks (kindWord kind) ((frameParts f).drop 1)).isOk = false →
        (unsubscribing word kind id (frameParts f) s).2 = s) := by
    unfold unsubscribing
    cases hb : bulks (kindWord kind) ((frameParts f).drop 1) with
    | error g => exact ⟨nofun, fun _ => rfl⟩
    | ok names => exact ⟨fun _ => rfl, nofun⟩
  simp only [List.mem_cons, List.not_mem_nil, or_false] at hmem
  rcases hmem with rfl | rfl | rfl | rfl
  · exact ⟨_, rfl, nofun, hsub "subscribe" .channel⟩
  · exact ⟨_, rfl, nofun, hunsub "unsubscribe" .channel⟩
  · exact ⟨_, rfl, nofun, hsub "psubscribe" .pattern⟩
  · exact ⟨_, rfl, nofun, hunsub "punsubscribe" .pattern⟩

/-- What the handler confirms has no answer at the end of the batch. -/
theorem confirms_noResponse {f : RespFrame} (h : confirms env s id f = true) :
    (answerFrame env id f s).1 = .ok .noResponse := by
  unfold confirms at h
  split at h
  · cases h
  · next conn hconn =>
      obtain ⟨had, hargs⟩ := Bool.and_eq_true_iff.mp h
      obtain ⟨c, hc, hmem⟩ : ∃ c, cleanCommand f = some c ∧
          c ∈ [Command.subscribe, .unsubscribe, .psubscribe, .punsubscribe] := by
        unfold subscriptionArgs at hargs
        split at hargs
        · next hc => exact ⟨_, hc, by decide⟩
        · next hc => exact ⟨_, hc, by decide⟩
        · next hc => exact ⟨_, hc, by decide⟩
        · next hc => exact ⟨_, hc, by decide⟩
        · cases hargs
      obtain ⟨a, ha, hauth, hok, -⟩ := @subscription_cases env id _ _ s hc hmem
      rw [hc] at hargs
      rw [answerFrame_immediate hc ha hauth, hconn]
      dsimp only
      rw [if_pos had]
      exact hok hargs

theorem not_spoke_self (s : Server) (id : ConnId) : spoke s s id = false := by simp [spoke]

/-- A handler that writes into the buffer of the connection is one of those
that write at once. -/
theorem writesAtOnce_of_spoke {f : RespFrame} (hf : ownWriter f = true)
    (h : spoke s (answerFrame env id f s).2 id = true) : writesAtOnce env s id f = true := by
  unfold ownWriter at hf
  unfold writesAtOnce
  split at hf
  · next hsync =>
      by_contra hm
      have hsame : (answerFrame env id f s).2 = s := by
        have hrole : ∃ addr offset, s.replication.role = .replica addr offset := by
          unfold ReplicationManager.isMaster at hm
          split at hm
          · exact absurd rfl hm
          · next addr offset hr => exact ⟨addr, offset, hr⟩
        obtain ⟨addr, offset, hr⟩ := hrole
        unfold answerFrame
        rw [hsync]
        simp only [handleSyncCommand, handleSync, hr, Bool.false_eq_true, if_false, sendDump]
        split
        · rfl
        · rw [ReplicationManager.addReplica, if_neg hm]
      rw [hsame, not_spoke_self] at h
      cases h
  · next hpsync =>
      split
      · rfl
      · next hfull =>
          have hsame : (answerFrame env id f s).2 = s := by
            unfold answerFrame
            rw [hpsync]
            simp only [handleSyncCommand, if_true]
            split
            · rfl
            · rfl
            · next g hg => exact absurd hg (hfull g)
          rw [hsame, not_spoke_self] at h
          cases h
  · next hs hp =>
      obtain ⟨c, hc, hmem⟩ := (Option.any_eq_true _ _).mp hf
      have hmem : c ∈ [Command.subscribe, .unsubscribe, .psubscribe, .punsubscribe] := by
        simpa using hmem
      obtain ⟨a, ha, hauth, -, hsame⟩ := @subscription_cases env id _ _ s hc hmem
      rw [answerFrame_immediate hc ha hauth] at h
      unfold confirms
      cases hconn : s.connections.get? id with
      | none =>
          rw [hconn] at h
          dsimp only at h
          rw [not_spoke_self] at h
          cases h
      | some conn =>
          rw [hconn] at h
          dsimp only at h ⊢
          by_contra hno
          rw [hc, Bool.and_eq_true, not_and_or, Bool.not_eq_true, Bool.not_eq_true] at hno
          rcases hno with had | hargs
          · rw [if_neg (by simp [had]), not_spoke_self] at h
            cases h
          · split at h
            · rw [hsame hargs, not_spoke_self] at h
              cases h
            · rw [not_spoke_self] at h
              cases h

/-- A blocking pop writes nothing at once. -/
theorem ownWriter_of_blockingOp {f : RespFrame} {op : BlockingOp}
    (h : blockingOp (frameName f) = some op) : ownWriter f = false := by
  obtain ⟨hf, -⟩ | ⟨hf, -⟩ := blockingOp_eq_some h
  · simp [ownWriter, hf, cleanCommand_of_frameName hf]
  · simp [ownWriter, hf, cleanCommand_of_frameName hf]

/-! ## One frame -/

/-- One frame of a connection that is awake: it stays awake, or the frame would
block. -/
theorem frame_spec (hid : id ≠ 0) (f : RespFrame) {d : Standing} (hawake : s.isBlocked id = false)
    (hw : d.waiting = none) (hle : d.answered ≤ d.executed) :
    ∃ d₁, d.follow (frameEvents env id f d.executed s) = some d₁ ∧ d₁.executed = d.executed + 1 ∧
      d₁.answered ≤ d.executed ∧ (writesAtOnce env s id f = false → d₁.answered = d.answered) ∧
      (d₁.waiting = none ∧ (answerFrame env id f s).2.isBlocked id = false ∨
        wouldBlock env s id f = true ∧ (answerFrame env id f s).1 = .ok .noResponse ∧
          d₁.waiting = some d.executed ∧ (answerFrame env id f s).2.isBlocked id = true) := by
  have hexec : d.step (.executed d.executed) = some { d with executed := d.executed + 1 } :=
    step_executed.mpr ⟨rfl, hw, rfl⟩
  unfold frameEvents
  rcases @answerFrame_sleeps env id hid f s with hcalm | ⟨hblock, hok, hfell, -, hb⟩
  · have hb : (answerFrame env id f s).2.isBlocked id = false := by
      by_contra h
      rw [hcalm.awake (by simpa using h)] at hawake
      cases hawake
    rw [hcalm.notAsleep]
    cases hsp : ownWriter f && spoke s (answerFrame env id f s).2 id with
    | false =>
        exact ⟨_, follow_cons.mpr ⟨_, hexec, rfl⟩, rfl, hle, fun _ => rfl, .inl ⟨hw, hb⟩⟩
    | true =>
        obtain ⟨hf, hspoke⟩ := Bool.and_eq_true_iff.mp hsp
        have hat := writesAtOnce_of_spoke hf hspoke
        have hrep : Standing.step { d with executed := d.executed + 1 } (.replied d.executed) =
            some { d with executed := d.executed + 1, answered := d.executed, waiting := none } :=
          step_replied.mpr ⟨hle, Nat.lt_succ_self _, by simp [hw], by simp [hw]⟩
        refine ⟨_, follow_cons.mpr ⟨_, hexec, follow_cons.mpr ⟨_, hrep, rfl⟩⟩, rfl, le_rfl,
          fun h => ?_, .inl ⟨rfl, hb⟩⟩
        rw [hat] at h
        cases h
  · obtain ⟨op, hop⟩ := Option.isSome_iff_exists.mp (Bool.and_eq_true_iff.mp hfell).1
    rw [hfell, ownWriter_of_blockingOp hop]
    have hsleep : Standing.step { d with executed := d.executed + 1 } (.asleep d.executed) =
        some { d with executed := d.executed + 1, waiting := some d.executed } :=
      step_asleep.mpr ⟨rfl, hw, rfl⟩
    exact ⟨_, follow_cons.mpr ⟨_, hexec, follow_cons.mpr ⟨_, hsleep, rfl⟩⟩, rfl, hle, fun _ => rfl,
      .inr ⟨hblock, hok, rfl, hb⟩⟩

/-! ## What the others notice -/

/-- The connection is gone, or about to be removed. -/
def Away (s : Server) (id : ConnId) : Prop :=
  ∀ c, s.connections.get? id = some c → c.state = .closing ∧ s.pubsub.isSubscribed id = false

/-- A connection sleeps on, unless it goes away. -/
structure Steady (s s' : Server) (j : ConnId) : Prop where
  awake : s'.isBlocked j = true → s.isBlocked j = true
  asleep : s.isBlocked j = true → s'.isBlocked j = true ∨ s'.Away j
  away : s.Away j → s'.Away j

theorem Steady.refl (s : Server) (j : ConnId) : Steady s s j := ⟨fun h => h, .inl, fun h => h⟩

theorem Steady.trans {s₁ s₂ : Server} {j : ConnId} (h : Steady s s₁ j) (g : Steady s₁ s₂ j) :
    Steady s s₂ j where
  awake hb := h.awake (g.awake hb)
  asleep hb := (h.asleep hb).elim g.asleep fun ha => .inr (g.away ha)
  away ha := g.away (h.away ha)

theorem isBlocked_of_not_contains {j : ConnId} (h : s.connections.contains j = false) :
    s.isBlocked j = false := by
  rw [Map.contains, Option.isSome_eq_false_iff, Option.isNone_iff_eq_none] at h
  rw [isBlocked, h]
  rfl

theorem away_of_not_contains {j : ConnId} (h : s.connections.contains j = false) : s.Away j := by
  intro c hc
  rw [Map.contains, hc] at h
  cases h

theorem steady_of_not_contains {s' : Server} {j : ConnId} (h : s'.connections.contains j = false) :
    Steady s s' j where
  awake hb := by
    rw [isBlocked_of_not_contains h] at hb
    cases hb
  asleep _ := .inr (away_of_not_contains h)
  away _ := away_of_not_contains h

theorem sleepersKept_iff {s' : Server} : sleepersKept s s' = true ↔
    ∀ j, s.isBlocked j = true → s.pubsub.isSubscribed j = true → s'.isBlocked j = true := by
  simp only [sleepersKept, List.all_eq_true, Bool.or_eq_true, Bool.not_eq_true', Bool.and_eq_false_imp]
  constructor
  · intro h j hb hs
    have hmem : j ∈ s.connections.keyList := by
      refine Map.mem_keyList.mpr ?_
      cases hc : s.connections.get? j with
      | none => simp [isBlocked, hc] at hb
      | some c => exact ⟨c, rfl⟩
    refine (h j hmem).resolve_left fun hn => ?_
    rw [hn hb] at hs
    cases hs
  · intro h j _
    cases hb : s.isBlocked j with
    | false => exact .inl (by rintro ⟨⟩)
    | true =>
        cases hs : s.pubsub.isSubscribed j with
        | false => exact .inl fun _ => rfl
        | true => exact .inr (h j hb hs)

/-- A step whose footprint is `id`'s leaves the others steady. -/
theorem Footprint.steady {s' : Server} (h : Footprint id s s') (hk : sleepersKept s s' = true)
    {j : ConnId} (hj : Other id j) : Steady s s' j where
  awake := h.isBlocked hj
  asleep hb := by
    cases hc' : s'.connections.get? j with
    | none => exact .inr fun c hc => by rw [hc'] at hc; cases hc
    | some c' =>
        obtain ⟨c, hc, hs⟩ := h.state j c' hj hc'
        rcases hs with hs | hs
        · refine .inl ?_
          rw [Server.isBlocked, hc', Option.map_some, Option.getD_some, hs]
          rwa [Server.isBlocked, hc, Option.map_some, Option.getD_some] at hb
        · cases hsub : s.pubsub.isSubscribed j with
          | true => exact .inl (sleepersKept_iff.mp hk j hb hsub)
          | false =>
              refine .inr fun c₂ hc₂ => ?_
              obtain rfl := Option.some.inj (hc'.symm.trans hc₂)
              exact ⟨hs, (h.subscribed j hj).trans hsub⟩
  away ha c' hc' := by
    obtain ⟨c, hc, hs⟩ := h.state j c' hj hc'
    obtain ⟨hcl, hsub⟩ := ha c hc
    exact ⟨hs.elim (fun h => h.trans hcl) fun h => h, (h.subscribed j hj).trans hsub⟩

/-- What is done for `id` leaves every other connection steady. -/
structure Apart (id : ConnId) (s s' : Server) : Prop where
  nextId : s'.nextId = s.nextId
  present : ∀ j, s'.connections.contains j = s.connections.contains j
  steady : ∀ j ≠ id, Steady s s' j

theorem Apart.refl (id : ConnId) (s : Server) : Apart id s s := ⟨rfl, fun _ => rfl, fun j _ => .refl s j⟩

theorem Apart.trans {s₁ s₂ : Server} (h : Apart id s s₁) (g : Apart id s₁ s₂) : Apart id s s₂ :=
  ⟨g.nextId.trans h.nextId, fun j => (g.present j).trans (h.present j),
    fun j hj => (h.steady j hj).trans (g.steady j hj)⟩

theorem Footprint.apart {s' : Server} (h : Footprint id s s') (hk : sleepersKept s s' = true)
    (h0 : s.connections.contains 0 = false) : Apart id s s' where
  nextId := h.nextId
  present := h.present
  steady j hj := by
    by_cases hz : j = 0
    · rw [hz]
      exact steady_of_not_contains ((h.present 0).trans h0)
    · exact h.steady hk ⟨hj, hz⟩

/-! ## One batch -/

theorem step_le_executed {d d' : Standing} {l : List Event} (h : d.follow l = some d') :
    d.executed ≤ d'.executed := by
  rw [executed_of_follow h]
  exact Nat.le_add_right _ _

/-- Where a connection stands after the frames of a batch: asleep over the last
one, or awake; and what is answered at the end comes after what was answered at
once. -/
structure Settled (d d' : Standing) (late : Bool) (blocked : Bool) (replies : Outcome (List RespFrame)) :
    Prop where
  waiting : d'.waiting ≠ none ↔ blocked = true
  answered : d'.answered ≤ d'.executed
  later : ∀ w ∈ d'.waiting, d.executed ≤ w
  late : late = true → d'.answered = d.answered
  replies : ∀ rs, replies = .ok rs → ∀ i r, rs[i]? = some r → r ≠ .noResponse →
    d'.answered ≤ d.executed + i ∧ d.executed + i < d'.executed ∧ ∀ w ∈ d'.waiting, d.executed + i < w

theorem batch_spec (hid : id ≠ 0) (fs : List RespFrame) {late : Bool} {s : Server} {d : Standing}
    (h : orderlyBatch env id late fs s = true) (hawake : s.isBlocked id = false)
    (h0 : s.connections.contains 0 = false) (hw : d.waiting = none) (hle : d.answered ≤ d.executed) :
    Apart id s (answerAll env id fs s).2 ∧ ∃ d',
      d.follow (batchEvents env id fs d.executed s) = some d' ∧
        Settled d d' late ((answerAll env id fs s).2.isBlocked id) (answerAll env id fs s).1 := by
  induction fs generalizing late s d with
  | nil =>
      refine ⟨.refl id s, d, rfl, ⟨?_, hle, ?_, fun _ => rfl, ?_⟩⟩
      · simp [answerAll, hw, hawake]
      · simp [hw]
      · rintro rs hrs i r hr
        cases hrs
        simp at hr
  | cons f fs ih =>
      simp only [orderlyBatch, Bool.and_eq_true] at h
      obtain ⟨⟨⟨hlast, hlate⟩, hkept⟩, hrest⟩ := h
      obtain ⟨d₁, hfollow, hexec, hans, hat, hcase⟩ := @frame_spec env id s hid f d hawake hw hle
      have hapart := (@within_answerFrame env id hid f s).apart hkept h0
      have hkeep (hl : late = true) : d₁.answered = d.answered := hat (by simpa [hl] using hlate)
      have hconf : confirms env s id f = true → (answerFrame env id f s).1 = .ok .noResponse :=
        confirms_noResponse
      have hans' : d₁.answered ≤ d₁.executed := by omega
      have hlater : ∀ w ∈ d₁.waiting, d.executed ≤ w := by
        intro w hmem
        rcases hcase with ⟨hnone, -⟩ | ⟨-, -, hsome, -⟩
        · rw [hnone] at hmem
          cases hmem
        · rw [hsome] at hmem
          exact (Option.some.inj hmem).le
      have hwaiting : d₁.waiting ≠ none ↔ (answerFrame env id f s).2.isBlocked id = true := by
        rcases hcase with ⟨hnone, hb⟩ | ⟨-, -, hsome, hb⟩
        · simp [hnone, hb]
        · simp [hsome, hb]
      simp only [answerAll, batchEvents]
      rcases hr : answerFrame env id f s with ⟨r | e | _, s₁⟩
      all_goals
        rw [hr] at hapart hrest hcase hconf hwaiting
        dsimp only at hapart hrest hcase hconf hwaiting
      · rcases hcase with ⟨hnone, hb⟩ | ⟨hblock, hok, hsome, hb⟩
        · -- the connection is awake, and the rest of the batch follows
          obtain ⟨hapart', d', hfollow', hsettled⟩ :=
            ih hrest hb ((hapart.present 0).trans h0) hnone hans'
          rw [hexec] at hfollow'
          have hgrow := step_le_executed hfollow'
          have hlater' : ∀ w ∈ d'.waiting, d.executed < w := fun w hmem => by
            have := hsettled.later w hmem
            omega
          have hkeep' (hl : late = true) : d'.answered = d.answered :=
            (hsettled.late (by simp [hl])).trans (hkeep hl)
          have hfollowed : d.follow (frameEvents env id f d.executed s ++
              batchEvents env id fs (d.executed + 1) s₁) = some d' :=
            follow_append.mpr ⟨d₁, hfollow, hfollow'⟩
          have hfirst (hne : r ≠ .noResponse) : d'.answered ≤ d.executed := by
            have hno : confirms env s id f = false := by
              by_contra hc
              exact hne (Outcome.ok.inj (hconf (by simpa using hc)))
            rw [hsettled.late (by simp [hno])]
            exact hans
          rcases hrs : answerAll env id fs s₁ with ⟨rs' | e | _, s₂⟩
          all_goals
            rw [hrs] at hapart' hsettled
            dsimp only at hapart' hsettled
            simp only [hrs]
            refine ⟨hapart.trans hapart', d', hfollowed, hsettled.waiting, hsettled.answered,
              fun w hmem => (hlater' w hmem).le, hkeep', ?_⟩
          · rintro rs hrs i r' hr' hne
            cases hrs
            cases i with
            | zero =>
                obtain rfl := Option.some.inj hr'
                exact ⟨hfirst hne, by omega, hlater'⟩
            | succ i =>
                have hrec := hsettled.replies rs' rfl i r' hr' hne
                rw [hexec] at hrec
                rwa [Nat.add_assoc, Nat.add_comm 1 i] at hrec
          · exact nofun
          · exact nofun
        · -- the frame blocks, so it is the last one
          have hfs : fs = [] := by simpa [hblock] using hlast
          obtain rfl := Outcome.ok.inj hok
          subst hfs
          refine ⟨hapart, d₁, follow_append.mpr ⟨d₁, hfollow, rfl⟩, hwaiting, hans', hlater, hkeep, ?_⟩
          rintro rs hrs i r' hr' hne
          cases hrs
          cases i with
          | zero => exact absurd (Option.some.inj hr').symm hne
          | succ i => simp at hr'
      · exact ⟨hapart, d₁, by rw [List.append_nil]; exact hfollow,
          hwaiting, hans', hlater, hkeep, nofun⟩
      · exact ⟨hapart, d₁, by rw [List.append_nil]; exact hfollow,
          hwaiting, hans', hlater, hkeep, nofun⟩

/-- The replies at the end of a batch. -/
theorem follow_replyEvents (rs : List RespFrame) {n : Nat} {d : Standing}
    (h : ∀ i r, rs[i]? = some r → r ≠ .noResponse →
      d.answered ≤ n + i ∧ n + i < d.executed ∧ ∀ w ∈ d.waiting, n + i < w) :
    ∃ d', d.follow (replyEvents n rs) = some d' ∧ d'.waiting = d.waiting := by
  induction rs generalizing n d with
  | nil => exact ⟨d, rfl, rfl⟩
  | cons r rs ih =>
      have hrest : ∀ i r', rs[i]? = some r' → r' ≠ .noResponse →
          d.answered ≤ n + 1 + i ∧ n + 1 + i < d.executed ∧ ∀ w ∈ d.waiting, n + 1 + i < w := by
        intro i r' hr hne
        have := h (i + 1) r' hr hne
        rwa [Nat.add_assoc, Nat.add_comm 1 i]
      by_cases hr : r = .noResponse
      · subst hr
        exact ih hrest
      · obtain ⟨hans, hlt, hw⟩ := h 0 r rfl hr
        have hkeep : d.waiting.filter (· != n) = d.waiting := by
          cases hd : d.waiting with
          | none => rfl
          | some w =>
              have hne : w ≠ n := Nat.ne_of_gt (hw w hd)
              simp [hne]
        have hstep : d.step (.replied n) = some { d with answered := n } :=
          step_replied.mpr ⟨hans, hlt, fun w hmem => (hw w hmem).le, by rw [hkeep]⟩
        obtain ⟨d', hfollow, hwait⟩ := ih (d := { d with answered := n }) fun i r' hr' hne => by
          obtain ⟨-, hlt', hw'⟩ := hrest i r' hr' hne
          exact ⟨by simp only; omega, hlt', hw'⟩
        have heq : replyEvents n (r :: rs) = .replied n :: replyEvents (n + 1) rs := by
          cases r with
          | noResponse => exact absurd rfl hr
          | _ => rfl
        exact ⟨d', heq ▸ follow_cons.mpr ⟨_, hstep, hfollow⟩, hwait⟩

theorem steady_of_eq {s' : Server} {j : ConnId} (hc : s'.connections.get? j = s.connections.get? j)
    (hs : s'.pubsub.isSubscribed j = s.pubsub.isSubscribed j) : Steady s s' j where
  awake hb := by rwa [isBlocked_eq_of_get? hc] at hb
  asleep hb := by
    rw [← isBlocked_eq_of_get? hc] at hb
    exact .inl hb
  away ha c hc' := by
    rw [hc] at hc'
    rw [hs]
    exact ha c hc'

theorem apart_onConnection (s : Server) (id : ConnId) (f : Connection → Connection) :
    Apart id s (s.onConnection id f) where
  nextId := onConnection_nextId _ _ _
  present j := (Footprint.onConnection s id fun _ => .inr (.inr rfl)).present j
  steady j hj := steady_of_eq (onConnection_get?_ne _ _ hj _) (by rw [onConnection_pubsub])

theorem apart_sendAll (s : Server) (id : ConnId) (items : List Sent) : Apart id s (s.sendAll id items) where
  nextId := sendAll_nextId _ _ _
  present j := by rw [sendAll_connections]
  steady j _ := steady_of_eq (by rw [sendAll_connections]) (by rw [sendAll_pubsub])

theorem not_isBlocked_closeConnection (s : Server) (id : ConnId) :
    (s.closeConnection id).isBlocked id = false := by
  rw [isBlocked, closeConnection, onConnection_get?_self]
  cases s.connections.get? id <;> rfl

/-- A connection that is closed and not subscribed is about to be removed. -/
theorem away_closeConnection (h : s.pubsub.isSubscribed id = false) : (s.closeConnection id).Away id := by
  intro c hc
  rw [closeConnection, onConnection_get?_self] at hc
  obtain ⟨c₀, -, rfl⟩ := Option.map_eq_some_iff.mp hc
  exact ⟨rfl, by rw [closeConnection, onConnection_pubsub]; exact h⟩

/-- One turn of a connection that is awake. -/
theorem input_spec (hid : id ≠ 0) (i : Input) {d : Standing} (h : orderlyInput env id i s = true)
    (hawake : s.isBlocked id = false) (h0 : s.connections.contains 0 = false) (hw : d.waiting = none)
    (hle : d.answered ≤ d.executed) :
    ∃ d', d.follow (inputEvents env id i d.executed s) = some d' ∧
      ∀ r, processConnection env id i s = some r → Apart id s r.2 ∧
        (r.2.isBlocked id = true → d'.waiting ≠ none) ∧
        (d'.waiting ≠ none → r.2.isBlocked id = true ∨ r.2.Away id) := by
  cases i with
  | failed =>
      refine ⟨d, rfl, fun r hr => ?_⟩
      obtain rfl := Option.some.inj hr
      exact ⟨.refl id s, fun hb => absurd hb (by simp [hawake]), fun hne => absurd hw hne⟩
  | eof =>
      refine ⟨d, rfl, fun r hr => ?_⟩
      obtain rfl := Option.some.inj hr
      refine ⟨apart_onConnection s id _, fun hb => ?_, fun hne => absurd hw hne⟩
      rw [not_isBlocked_closeConnection] at hb
      cases hb
  | frames fs =>
      simp only [orderlyInput, Bool.and_eq_true] at h
      obtain ⟨hbatch, hquit⟩ := h
      obtain ⟨hapart, d₁, hfollow, hset⟩ := batch_spec hid fs hbatch hawake h0 hw hle
      simp only [inputEvents, processConnection]
      rcases hr : answerAll env id fs s with ⟨rs | e | _, s₁⟩
      all_goals
        rw [hr] at hapart hset hquit
        dsimp only at hapart hset hquit
      · obtain ⟨d', hfollow', hwait⟩ := follow_replyEvents rs (hset.replies rs rfl)
        refine ⟨d', follow_append.mpr ⟨d₁, hfollow, hfollow'⟩, fun r hr => ?_⟩
        obtain rfl := Option.some.inj hr
        have hsent := hapart.trans (apart_sendAll s₁ id (written rs))
        rw [hwait]
        dsimp only
        split
        · next hq =>
            refine ⟨hsent.trans (apart_onConnection _ id _), fun hb => ?_, fun hne => .inr ?_⟩
            · rw [not_isBlocked_closeConnection] at hb
              cases hb
            · refine away_closeConnection ?_
              rw [sendAll_pubsub]
              by_contra hsub
              rw [hq, Bool.not_true, Bool.false_or] at hquit
              have hb := sleepersKept_iff.mp hquit id (hset.waiting.mp hne) (by simpa using hsub)
              rw [not_isBlocked_closeConnection] at hb
              cases hb
        · have hsame : (s₁.sendAll id (written rs)).isBlocked id = s₁.isBlocked id :=
            isBlocked_eq_of_get? (by rw [sendAll_connections])
          rw [hsame]
          exact ⟨hsent, hset.waiting.mpr, fun hne => .inl (hset.waiting.mp hne)⟩
      · refine ⟨d₁, by rw [List.append_nil]; exact hfollow, fun r hr => ?_⟩
        obtain rfl := Option.some.inj hr
        exact ⟨hapart, hset.waiting.mpr, fun hne => .inl (hset.waiting.mp hne)⟩
      · exact ⟨d₁, by rw [List.append_nil]; exact hfollow, nofun⟩

/-! ## The loop -/

theorem Log.of_append_self (l : Log) (id : ConnId) (es : List Event) :
    Log.of (l ++ es.map (id, ·)) id = l.of id ++ es := by
  simp [Log.of, List.filter_append, List.filter_map, Function.comp_def]

theorem Log.of_append_ne (l : Log) {j : ConnId} (hj : j ≠ id) (es : List Event) :
    Log.of (l ++ es.map (id, ·)) j = l.of j := by
  simp [Log.of, List.filter_append, List.filter_map, Function.comp_def, Ne.symm hj]

/-- The log of a connection can be read, and says whether it sleeps. -/
def Stands (s : Server) (l : Log) (id : ConnId) : Prop :=
  ∃ d, Standing.follow {} (l.of id) = some d ∧ (s.isBlocked id = true → d.waiting ≠ none) ∧
    (d.waiting ≠ none → s.isBlocked id = true ∨ s.Away id)

/-- Every connection stands as the log says. -/
structure Sound (s : Server) (l : Log) : Prop where
  next : 0 < s.nextId
  known : ∀ id, s.connections.contains id = true → 0 < id ∧ id < s.nextId
  fresh : ∀ id, s.nextId ≤ id → l.of id = []
  stands : ∀ id, Stands s l id

/-- Every connection's log can be read. -/
def Legible (l : Log) : Prop := ∀ id, ∃ d, Standing.follow {} (l.of id) = some d

theorem Sound.legible {l : Log} (h : Sound s l) : Legible l := fun id => by
  obtain ⟨d, hd, -⟩ := h.stands id
  exact ⟨d, hd⟩

theorem Stands.steady {l : Log} {s' : Server} {j : ConnId} (h : Stands s l j) (hs : Steady s s' j) :
    Stands s' l j := by
  obtain ⟨d, hd, hb, hw⟩ := h
  exact ⟨d, hd, fun hb' => hb (hs.awake hb'), fun hne => (hw hne).elim hs.asleep fun ha => .inr (hs.away ha)⟩

theorem Sound.not_contains_zero {l : Log} (h : Sound s l) : s.connections.contains 0 = false := by
  by_contra hc
  exact absurd (h.known 0 (by simpa using hc)).1 (lt_irrefl 0)

/-- The log is as it was, and nobody was put to sleep. -/
theorem Sound.of_steady {l : Log} {s' : Server} (h : Sound s l) (hn : s'.nextId = s.nextId)
    (hc : ∀ j, s'.connections.contains j = true → s.connections.contains j = true)
    (hs : ∀ j, Steady s s' j) : Sound s' l where
  next := hn ▸ h.next
  known j hj := hn ▸ h.known j (hc j hj)
  fresh j hj := h.fresh j (hn ▸ hj)
  stands j := (h.stands j).steady (hs j)

/-- What is done for one connection is written down. -/
theorem Sound.extend {l : Log} {s' : Server} {es : List Event} (h : Sound s l) (hap : Apart id s s')
    (hid : s.connections.contains id = true) (hs : Stands s' (l ++ es.map (id, ·)) id) :
    Sound s' (l ++ es.map (id, ·)) where
  next := hap.nextId ▸ h.next
  known j hj := hap.nextId ▸ h.known j (hap.present j ▸ hj)
  fresh j hj := by
    rw [hap.nextId] at hj
    have hne : j ≠ id := by
      rintro rfl
      exact absurd (h.known j hid).2 (not_lt.mpr hj)
    rw [Log.of_append_ne _ hne]
    exact h.fresh j hj
  stands j := by
    by_cases hj : j = id
    · rw [hj]
      exact hs
    · obtain ⟨d, hd, hb, hw⟩ := (h.stands j).steady (hap.steady j hj)
      exact ⟨d, by rwa [Log.of_append_ne _ hj], hb, hw⟩

theorem Legible.extend {l : Log} {es : List Event} (h : Legible l) {d : Standing}
    (hs : Standing.follow {} (l.of id ++ es) = some d) : Legible (l ++ es.map (id, ·)) := by
  intro j
  by_cases hj : j = id
  · rw [hj, Log.of_append_self]
    exact ⟨d, hs⟩
  · rw [Log.of_append_ne _ hj]
    exact h j

theorem answered_le_of_follow {l : List Event} {d : Standing} (h : Standing.follow {} l = some d) :
    d.answered ≤ d.executed :=
  (wellPlaced_of_follow Standing.wellPlaced_initial h).answered.trans (Nat.sub_le _ _)

theorem executed_of_initial {l : List Event} {d : Standing} (h : Standing.follow {} l = some d) :
    d.executed = executed l :=
  (executed_of_follow h).trans (Nat.zero_add _)

theorem awake_of_getD (h : ((s.connections.get? id).map (·.state.isBlocked)).getD true = false) :
    s.connections.contains id = true ∧ s.isBlocked id = false := by
  unfold isBlocked Map.contains
  cases hc : s.connections.get? id with
  | none => simp [hc] at h
  | some c =>
      rw [hc] at h
      exact ⟨rfl, h⟩

/-- The connections that are processed in a turn. -/
theorem inputs_spec (ready : List ConnId) (ins : List (ConnId × Input)) {l : Log} {s : Server}
    (hsound : Sound s l) (hnodup : (ins.map Prod.fst).Nodup) (h : orderlyInputs env ready ins s = true)
    (hidle : ∀ p ∈ ins, p.1 ∈ ready → ∀ d, Standing.follow {} (l.of p.1) = some d → d.waiting = none) :
    Legible (inputsLog env ready ins l s) ∧
      ∀ failed r, processInputs env ready ins failed s = some r → Sound r.2 (inputsLog env ready ins l s) := by
  induction ins generalizing l s with
  | nil =>
      refine ⟨hsound.legible, fun failed r hr => ?_⟩
      obtain rfl := Option.some.inj hr
      exact hsound
  | cons p ins ih =>
      obtain ⟨id, i⟩ := p
      obtain ⟨hnotin, hnodup⟩ := List.nodup_cons.mp hnodup
      have hrest {l' : Log} (hl : ∀ j ≠ id, l'.of j = l.of j) : ∀ p ∈ ins, p.1 ∈ ready →
          ∀ d, Standing.follow {} (l'.of p.1) = some d → d.waiting = none := by
        intro p hp hready d hd
        have hne : p.1 ≠ id := fun heq => hnotin (List.mem_map.mpr ⟨p, hp, heq⟩)
        rw [hl p.1 hne] at hd
        exact hidle p (List.mem_cons_of_mem _ hp) hready d hd
      simp only [orderlyInputs, inputsLog, processInputs] at h ⊢
      split at h
      · next hc =>
          rw [if_pos hc]
          obtain ⟨hpresent, hawake⟩ := awake_of_getD hc.2
          obtain ⟨hi, hcont⟩ := Bool.and_eq_true_iff.mp h
          have hid : id ≠ 0 := (hsound.known id hpresent).1.ne'
          obtain ⟨d, hd, -, -⟩ := hsound.stands id
          have hw := hidle (id, i) List.mem_cons_self hc.1 d hd
          obtain ⟨d', hfollow, hproc⟩ := input_spec hid i hi hawake hsound.not_contains_zero hw
            (answered_le_of_follow hd)
          rw [executed_of_initial hd] at hfollow
          have hread := follow_append.mpr ⟨d, hd, hfollow⟩
          cases hr : processConnection env id i s with
          | none =>
              refine ⟨hsound.legible.extend hread, fun failed r' hr' => ?_⟩
              rw [if_pos hc] at hr'
              cases hr'
          | some r =>
              rw [hr] at hcont
              obtain ⟨hapart, hb, hw'⟩ := hproc r hr
              have hstands : Stands r.2 (l ++ (inputEvents env id i (executed (l.of id)) s).map (id, ·)) id :=
                ⟨d', by rw [Log.of_append_self]; exact hread, hb, hw'⟩
              obtain ⟨hleg, hrun⟩ := ih (hsound.extend hapart hpresent hstands) hnodup hcont
                (hrest fun j hj => Log.of_append_ne _ hj _)
              refine ⟨hleg, fun failed r' hr' => ?_⟩
              rw [if_pos hc, Option.bind_some] at hr'
              exact hrun _ r' hr'
      · next hc =>
          rw [if_neg hc]
          obtain ⟨hleg, hrun⟩ := ih hsound hnodup h (hrest fun _ _ => rfl)
          exact ⟨hleg, fun failed r hr => hrun failed r (by rwa [if_neg hc] at hr)⟩

/-! ## Answers to sleepers -/

/-- A connection that sleeps gets its answer. -/
def answer (s : Server) (id : ConnId) (item : Sent) : Server :=
  (s.send id item).onConnection id fun c => { c with state := .authenticated }

theorem spoke_answer {c : Connection} {item : Sent} (h : s.connections.get? id = some c) :
    spoke s (s.answer id item) id = true := by
  have hlen : ((s.answer id item).output id).length = (s.output id).length + 1 := by
    simp [answer, output, send, h, List.filter_append]
  simp [spoke, hlen]

theorem apart_answer (s : Server) (id : ConnId) (item : Sent) : Apart id s (s.answer id item) :=
  (apart_sendAll s id [item]).trans (apart_onConnection _ id _)

theorem not_isBlocked_answer (s : Server) (id : ConnId) (item : Sent) :
    (s.answer id item).isBlocked id = false := by
  rw [isBlocked, answer, onConnection_get?_self]
  cases (s.send id item).connections.get? id <;> rfl

theorem isBlocked_of_get? {c : Connection} (h : s.connections.get? id = some c) :
    s.isBlocked id = c.state.isBlocked := by
  rw [isBlocked, h]
  rfl

/-- The answer to a sleeper is written down, and it wakes. -/
theorem Sound.answer {l : Log} {c : Connection} (h : Sound s l) (hc : s.connections.get? id = some c)
    (hb : c.state.isBlocked = true) (item : Sent) :
    Sound (s.answer id item) (answerLog s (s.answer id item) id l) := by
  obtain ⟨d, hd, hblocked, -⟩ := h.stands id
  obtain ⟨n, hn⟩ := Option.ne_none_iff_exists'.mp (hblocked ((isBlocked_of_get? hc).trans hb))
  have hplaced := wellPlaced_of_follow Standing.wellPlaced_initial hd
  have hexec := hplaced.waiting n hn
  have hans := hplaced.answered
  have hstep : d.step (.replied n) = some { d with answered := n, waiting := none } := by
    refine step_replied.mpr ⟨by omega, by omega, fun w hw => ?_, by simp [hn, Option.filter]⟩
    rw [hn] at hw
    exact (Option.some.inj hw).le
  rw [answerLog, if_pos (spoke_answer hc), lastAsleep_of_follow hd hn]
  have hstands : Stands (s.answer id item) (l ++ [Event.replied n].map (id, ·)) id := by
    refine ⟨{ d with answered := n, waiting := none }, ?_, fun hb' => ?_, fun hne => absurd rfl hne⟩
    · rw [Log.of_append_self]
      exact follow_append.mpr ⟨d, hd, follow_cons.mpr ⟨_, hstep, rfl⟩⟩
    · rw [not_isBlocked_answer] at hb'
      cases hb'
  exact h.extend (apart_answer s id item) (by rw [Map.contains, hc]; rfl) hstands

theorem answerLog_of_sent {s' : Server} {l : Log} (h : s'.sent = s.sent) : answerLog s s' id l = l := by
  have hno : spoke s s' id = false := by simp [spoke, output, h]
  rw [answerLog, hno]
  rfl

/-- No connection waits to be removed. -/
def Swept (s : Server) : Prop :=
  ∀ id c, s.connections.get? id = some c → c.state = .closing → s.pubsub.isSubscribed id = true

theorem Swept.answer {item : Sent} (h : Swept s) : Swept (s.answer id item) := by
  intro j c hc hcl
  rw [Server.answer, onConnection_pubsub, send_pubsub]
  rw [Server.answer, onConnection_get?, send_connections] at hc
  split at hc
  · obtain ⟨c₀, -, rfl⟩ := Option.map_eq_some_iff.mp hc
    cases hcl
  · exact h j c hc hcl

/-- The store is another, and nothing else. -/
theorem Sound.world {l : Log} (h : Sound s l) (w : World) : Sound { s with world := w } l :=
  h.of_steady rfl (fun _ => fun h => h) fun _ => steady_of_eq rfl rfl

theorem Sound.withBlocking {l : Log} (h : Sound s l) (m : BlockingManager) :
    Sound { s with blocking := m } l :=
  h.of_steady rfl (fun _ => fun h => h) fun _ => steady_of_eq rfl rfl

theorem wakes_spec (ws : List WakeupRequest) {l : Log} {s : Server} (h : Sound s l) (hs : Swept s) :
    Legible (wakesLog env ws l s) ∧ ∀ s', ws.foldlM (wakeClient env) s = some s' →
      Sound s' (wakesLog env ws l s) ∧ Swept s' := by
  induction ws generalizing l s with
  | nil =>
      refine ⟨h.legible, fun s' hs' => ?_⟩
      obtain rfl := Option.some.inj hs'
      exact ⟨h, hs⟩
  | cons w ws ih =>
      rw [wakesLog, List.foldlM_cons]
      cases hw : wakeClient env s w with
      | none => exact ⟨h.legible, nofun⟩
      | some s₁ =>
          have hstep : Sound s₁ (answerLog s s₁ w.connId l) ∧ Swept s₁ := by
            obtain ⟨r, world', -, rfl | ⟨c, value, -, hc, hb, rfl⟩⟩ := wakeClient_cases hw
            · have hsame := @answerLog_of_sent w.connId s { s with world := world' } l rfl
              rw [hsame]
              exact ⟨h.world world', hs⟩
            · exact ⟨(h.world world').answer hc hb _, Swept.answer hs⟩
          exact ih hstep.1 hstep.2

theorem timeouts_spec (ids : List ConnId) {l : Log} {s : Server} (h : Sound s l) :
    Sound (ids.foldl timeOut s) (timeoutsLog ids l s) := by
  induction ids generalizing l s with
  | nil => exact h
  | cons i ids ih =>
      refine ih ?_
      cases hc : s.connections.get? i with
      | none =>
          have hsame : s.timeOut i = s := by simp [timeOut, hc]
          rw [hsame, answerLog_of_sent rfl]
          exact h
      | some c =>
          by_cases hb : c.state.isBlocked = true
          · have hans : s.timeOut i = s.answer i (.frame .nullArray) := by simp [timeOut, hc, hb, answer]
            rw [hans]
            exact h.answer hc hb _
          · have hsame : s.timeOut i = s := by simp [timeOut, hc, hb]
            rw [hsame, answerLog_of_sent rfl]
            exact h

/-! ## Arrivals and departures -/

theorem Sound.accept {l : Log} (h : Sound s l) (addr : String) : Sound (accept env s addr) l := by
  unfold Server.accept
  split
  · exact ⟨Nat.succ_pos _, fun j hj => ⟨(h.known j hj).1, Nat.lt_succ_of_lt (h.known j hj).2⟩,
      fun j hj => h.fresh j (Nat.le_of_succ_le hj), fun j => (h.stands j).steady (steady_of_eq rfl rfl)⟩
  · refine ⟨Nat.succ_pos _, fun j hj => ?_, fun j hj => h.fresh j (Nat.le_of_succ_le hj), fun j => ?_⟩
    · by_cases hn : j = s.nextId
      · rw [hn]
        exact ⟨h.next, Nat.lt_succ_self _⟩
      · rw [Map.contains, Map.get?_set_ne _ _ hn] at hj
        exact ⟨(h.known j hj).1, Nat.lt_succ_of_lt (h.known j hj).2⟩
    · by_cases hn : j = s.nextId
      · refine ⟨{}, ?_, fun hb => ?_, fun hne => absurd rfl hne⟩
        · rw [h.fresh j hn.ge]
          rfl
        · rw [hn, isBlocked, Map.get?_set_self, Option.map_some, Option.getD_some] at hb
          dsimp only at hb
          split at hb
          · cases hb
          · cases hb
      · exact (h.stands j).steady (steady_of_eq (Map.get?_set_ne _ _ hn) rfl)

theorem Swept.accept (h : Swept s) (addr : String) : Swept (accept env s addr) := by
  unfold Server.accept
  split
  · exact h
  · intro j c hc hcl
    by_cases hn : j = s.nextId
    · rw [hn, Map.get?_set_self] at hc
      obtain rfl := Option.some.inj hc
      dsimp only at hcl
      split at hcl
      · cases hcl
      · cases hcl
    · rw [Map.get?_set_ne _ _ hn] at hc
      exact h j c hc hcl

/-- A connection is taken out of the table with its subscriptions. -/
theorem steady_of_removed {s' : Server} (hc : s'.connections = s.connections.del id)
    (hp : s'.pubsub = s.pubsub.unsubscribeAll id) (j : ConnId) : Steady s s' j := by
  by_cases hj : j = id
  · refine steady_of_not_contains ?_
    rw [hj, hc, Map.contains, Map.get?_del_self]
    rfl
  · refine steady_of_eq (by rw [hc, Map.get?_del_ne _ hj]) ?_
    rw [hp]
    exact (PubSubManager.spares_unsubscribeAll s.pubsub id).subscribed j hj

theorem contains_of_removed {s' : Server} (hc : s'.connections = s.connections.del id) {j : ConnId}
    (h : s'.connections.contains j = true) : s.connections.contains j = true := by
  by_cases hj : j = id
  · rw [hj, hc, Map.contains, Map.get?_del_self] at h
    cases h
  · rwa [hc, Map.contains, Map.get?_del_ne _ hj] at h

theorem Sound.removeFailed {l : Log} (h : Sound s l) (id : ConnId) : Sound (s.removeFailed id) l := by
  unfold Server.removeFailed
  split
  · exact h.of_steady rfl (fun _ => contains_of_removed rfl) (steady_of_removed rfl rfl)
  · exact h

theorem Sound.removeClosed {l : Log} (h : Sound s l) (id : ConnId) : Sound (s.removeClosed id) l :=
  h.of_steady rfl (fun _ => contains_of_removed rfl) (steady_of_removed rfl rfl)

theorem Sound.broken {l : Log} (h : Sound s l) (ids : List ConnId)
    (hk : sleepersKept s (ids.foldl closeConnection s) = true) :
    Sound (ids.foldl closeConnection s) l := by
  have hfoot := (calm_foldl_closeConnection 0 ids s).toFootprint
  have hzero := h.not_contains_zero
  refine h.of_steady hfoot.nextId (fun j hj => hfoot.present j ▸ hj) fun j => ?_
  by_cases hj : j = 0
  · rw [hj]
    exact steady_of_not_contains ((hfoot.present 0).trans hzero)
  · exact (hfoot.apart hk hzero).steady j hj

/-- What is left after some removals. -/
theorem foldl_removeClosed (ids : List ConnId) {s : Server} {j : ConnId} {c : Connection}
    (h : (ids.foldl Server.removeClosed s).connections.get? j = some c) :
    j ∉ ids ∧ s.connections.get? j = some c ∧
      (ids.foldl Server.removeClosed s).pubsub.isSubscribed j = s.pubsub.isSubscribed j := by
  induction ids generalizing s with
  | nil => exact ⟨List.not_mem_nil, h, rfl⟩
  | cons i ids ih =>
      obtain ⟨hnot, hc, hsub⟩ := ih h
      have hc : (s.connections.del i).get? j = some c := hc
      have hj : j ≠ i := by
        rintro rfl
        rw [Map.get?_del_self] at hc
        cases hc
      rw [Map.get?_del_ne _ hj] at hc
      exact ⟨fun hmem => (List.mem_cons.mp hmem).elim hj hnot, hc,
        hsub.trans ((PubSubManager.spares_unsubscribeAll s.pubsub i).subscribed j hj)⟩

theorem swept_cleanupConnections (s : Server) : Swept s.cleanupConnections := by
  intro j c hc hcl
  obtain ⟨hnot, hc', hsub⟩ := foldl_removeClosed _ hc
  rw [cleanupConnections, hsub]
  by_contra hno
  refine hnot (List.mem_map.mpr ⟨(j, c), List.mem_filter.mpr ⟨Map.mem_toPairs.mpr hc', ?_⟩, rfl⟩)
  rw [Bool.not_eq_true] at hno
  simp [hcl, hno]

theorem Sound.foldl {l : Log} {β : Type} {f : Server → β → Server} (h : Sound s l)
    (hf : ∀ {s : Server} (b : β), Sound s l → Sound (f s b) l) (bs : List β) : Sound (bs.foldl f s) l := by
  induction bs generalizing s with
  | nil => exact h
  | cons b bs ih => exact ih (hf b h)

/-! ## Turns -/

theorem mem_ready : id ∈ s.ready ↔ ∃ c, s.connections.get? id = some c ∧ c.state.isBlocked = false := by
  simp only [ready, List.mem_map, List.mem_filter, Prod.exists, exists_and_right, exists_eq_right,
    Map.mem_toPairs, Bool.not_eq_true']

/-- A connection that is processed sleeps over nothing. -/
theorem Sound.idle {l : Log} (h : Sound s l) (hs : Swept s) (hid : id ∈ s.ready) {d : Standing}
    (hd : Standing.follow {} (l.of id) = some d) : d.waiting = none := by
  obtain ⟨c, hc, hb⟩ := mem_ready.mp hid
  obtain ⟨d', hd', -, hw⟩ := h.stands id
  obtain rfl := Option.some.inj (hd.symm.trans hd')
  by_contra hne
  rcases hw hne with hblocked | haway
  · rw [isBlocked_of_get? hc, hb] at hblocked
    cases hblocked
  · obtain ⟨hcl, hsub⟩ := haway c hc
    rw [hs id c hc hcl] at hsub
    cases hsub

theorem Swept.accepts (h : Swept s) (addrs : List String) : Swept (addrs.foldl (Server.accept env) s) := by
  induction addrs generalizing s with
  | nil => exact h
  | cons addr addrs ih => exact ih (h.accept addr)

theorem turn_spec {l : Log} (t : Turn) (h : Sound s l) (hs : Swept s) (ho : orderlyTurn env s t = true) :
    Legible (turnLog env s t l) ∧ ∀ s', turn env s t = some s' → Sound s' (turnLog env s t l) ∧ Swept s' := by
  obtain ⟨hnodup, ho⟩ := Bool.and_eq_true_iff.mp ho
  have hnodup := of_decide_eq_true hnodup
  obtain ⟨hleg, hwakes⟩ := @wakes_spec env s.blocking.processWakeups.1 _ _
    (h.withBlocking s.blocking.processWakeups.2) hs
  unfold turnLog turn
  dsimp only [Option.bind_eq_bind]
  cases hw : processWakeups env s with
  | none => exact ⟨hleg, nofun⟩
  | some s₁ =>
      rw [hw] at ho
      obtain ⟨hins, hbroken⟩ := Bool.and_eq_true_iff.mp ho
      obtain ⟨hsound₁, hswept₁⟩ := hwakes s₁ hw
      have hsound₂ := hsound₁.foldl (fun addr hs => @Sound.accept env _ _ hs addr) t.accepted
      have hswept₂ : Swept (t.accepted.foldl (accept env) s₁) := hswept₁.accepts _
      obtain ⟨hleg₃, hrun⟩ := inputs_spec _ t.inputs hsound₂ hnodup hins fun p _ hready d hd =>
        hsound₂.idle hswept₂ hready hd
      simp only [Option.bind_some]
      cases hp : processConnections env t.inputs (t.accepted.foldl (accept env) s₁) with
      | none => exact ⟨hleg₃, nofun⟩
      | some s₃ =>
          rw [hp] at hbroken
          obtain ⟨r, hr, rfl⟩ := Option.map_eq_some_iff.mp hp
          have hsound₃ := (hrun [] r hr).foldl (fun i hs => hs.removeFailed i) r.1
          have hsound₄ := timeouts_spec
            ((r.1.foldl Server.removeFailed r.2).blocking.processTimeouts t.now).1
            (hsound₃.withBlocking ((r.1.foldl Server.removeFailed r.2).blocking.processTimeouts t.now).2)
          refine ⟨hsound₄.legible, fun s' hs' => ?_⟩
          obtain rfl := Option.some.inj hs'
          exact ⟨(hsound₄.broken t.broken hbroken).foldl (fun i hs => hs.removeClosed i) _,
            swept_cleanupConnections _⟩

theorem run_spec (ts : List Turn) {l : Log} {s : Server} (h : Sound s l) (hs : Swept s)
    (ho : orderly env ts s = true) : Legible (runLog env ts l s) := by
  induction ts generalizing l s with
  | nil => exact h.legible
  | cons t ts ih =>
      obtain ⟨hturn, hrest⟩ := Bool.and_eq_true_iff.mp ho
      obtain ⟨hleg, hnext⟩ := turn_spec t h hs hturn
      rw [runLog]
      cases ht : turn env s t with
      | none => exact hleg
      | some s' =>
          rw [ht] at hrest
          exact ih (hnext s' ht).1 (hnext s' ht).2 hrest

theorem sound_initial (e : Engine) (replId : String) (backlogSize : Nat) :
    Sound (initial e replId backlogSize) [] where
  next := Nat.one_pos
  known _ h := by cases h
  fresh _ _ := rfl
  stands _ := ⟨{}, rfl, nofun, fun h => absurd rfl h⟩

/-- In an orderly run every connection is quiet while it sleeps, and its replies
come in the order of its requests. -/
theorem orderly_quiet (env : Env) (e : Engine) (replId : String) (backlogSize : Nat) (ts : List Turn)
    (h : orderly env ts (initial e replId backlogSize) = true) (id : ConnId) :
    Quiet ((runLog env ts [] (initial e replId backlogSize)).of id) ∧
      InOrder ((runLog env ts [] (initial e replId backlogSize)).of id) := by
  obtain ⟨d, hd⟩ := run_spec ts (sound_initial e replId backlogSize) (fun _ _ hc => by cases hc) h id
  exact ⟨quiet_of_follow hd, inOrder_of_follow hd⟩

/-- One client sleeps, another pushes, and the first goes on. -/
def sleeping : List Turn :=
  [⟨["a", "b"], [], 0, []⟩,
   ⟨[], [(1, .frames [.list (words ["PING"]), .list (words ["BLPOP", "k", "0"])])], 0, []⟩,
   ⟨[], [(2, .frames [.list (words ["RPUSH", "k", "v"])])], 0, []⟩,
   ⟨[], [(1, .frames [.list (words ["SUBSCRIBE", "c"]), .list (words ["PING"])])], 0, []⟩,
   ⟨[], [(1, .frames [.list (words ["PING"])])], 0, []⟩]

theorem sleeping_quiet :
    Quiet ((runLog (.quiet none) sleeping [] (initial Engine.new "0" 16)).of 1) ∧
      InOrder ((runLog (.quiet none) sleeping [] (initial Engine.new "0" 16)).of 1) :=
  orderly_quiet (.quiet none) Engine.new "0" 16 sleeping rfl 1

/-- A command that comes in one batch with a pop that blocks. -/
def pipelined : List Turn :=
  [⟨["a"], [], 0, []⟩,
   ⟨[], [(1, .frames [.list (words ["BLPOP", "k", "0"]), .list (words ["PING"])])], 0, []⟩]

/-- It is carried out and answered while the connection sleeps. -/
theorem pipelined_not_quiet :
    ¬ Quiet ((runLog (.quiet none) pipelined [] (initial Engine.new "0" 16)).of 1) := by
  have hlog : (runLog (.quiet none) pipelined [] (initial Engine.new "0" 16)).of 1 =
      [.executed 0] ++ .asleep 0 :: [.executed 1, .replied 1] := rfl
  intro h
  obtain ⟨m, hm, -⟩ := h _ _ _ hlog (.executed 1) (by decide)
  exact absurd hm (Nat.not_lt_zero m)

end Server

end Ferrous
