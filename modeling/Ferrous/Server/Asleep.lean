/-
# `Server.Asleep` — what it takes to fall asleep

BLPOP and BRPOP put a connection to sleep when they reach their handler with
arguments it accepts and no list has an element.  `wouldBlock` reads that off
the state before the frame; every other frame is calm.
-/
import Ferrous.Server.Calm
import Ferrous.Storage.Absence

namespace Ferrous

open Lib Args

/-! ## Lists without elements -/

/-- There is nothing under the key, or a list without elements. -/
def Engine.vacant (e : Engine) (db : Nat) (key : Key) : Bool :=
  match e.entryAt db key with
  | none => true
  | some ⟨.list items, _⟩ => items.isEmpty
  | some _ => false

namespace Server

variable {ω : Nat → Ctx} {db : Nat} {w w' : World}

/-- A pop asks for no memory, and finds nothing exactly where there is nothing. -/
theorem popOp_vacant (op : BlockingOp) (key : Key) (ctx : Ctx) (entry : Option StoredValue)
    (h : ((popOp op).step key ctx entry).result = .ok none) :
    entry = none ∨ ∃ d, entry = some ⟨.list [], d⟩ := by
  rcases entry with _ | ⟨v, d⟩
  · exact .inl rfl
  · refine .inr ⟨d, ?_⟩
    cases v with
    | list items =>
        cases op with
        | blpop =>
            have h : Outcome.ok items.head? = .ok none := h
            rw [List.head?_eq_none_iff.mp (Outcome.ok.inj h)]
        | brpop =>
            have h : Outcome.ok items.getLast? = .ok none := h
            rw [List.getLast?_eq_none_iff.mp (Outcome.ok.inj h)]
    | _ => cases op <;> cases h

/-- A pop that finds nothing: the key is vacant, and the others stay as they are. -/
theorem pop_none (op : BlockingOp) (key : Key)
    (h : World.step ω _ (.key db key (popOp op)) w = (.ok none, w')) :
    w.engine.vacant db key = true ∧ w'.calls = w.calls + 1 ∧
      ∀ k ≠ key, w'.engine.entryAt db k = w.engine.entryAt db k := by
  obtain ⟨hres, rfl⟩ := Prod.mk.inj h
  simp only [Op.run] at hres ⊢
  by_cases hdb : db < w.engine.databases.length
  · rw [Engine.withEntry_fst hdb, Engine.answerOf] at hres
    refine ⟨?_, trivial, fun k hk => ?_⟩
    · split at hres
      · cases hres
      · unfold Engine.vacant
        rcases popOp_vacant op key _ _ hres with he | ⟨d, he⟩
        all_goals rw [he]
        rfl
    · rw [Engine.withEntry_snd hdb, if_neg fun h => hk h.2]
  · rw [Engine.withEntry_missing hdb] at hres
    cases hres

theorem vacant_congr {e e' : Engine} {key : Key} (h : e'.entryAt db key = e.entryAt db key) :
    e'.vacant db key = e.vacant db key := by
  unfold Engine.vacant
  rw [h]

/-- Trying one key after the other in vain. -/
theorem tryPops_none (op : BlockingOp) (keys : List Key)
    (h : (tryPops op db keys).run (World.step ω) w = (.ok none, w')) :
    (∀ key ∈ keys, w.engine.vacant db key = true) ∧ w'.calls = w.calls + keys.length := by
  induction keys generalizing w with
  | nil =>
      cases h
      exact ⟨nofun, rfl⟩
  | cons key keys ih =>
      rw [tryPops, Prog.bind_eq, need, Prog.run_perform_bind] at h
      rcases hpop : World.step ω _ (.key db key (popOp op)) w with ⟨⟨_ | v⟩ | e | _, w₁⟩
      all_goals rw [hpop] at h
      · obtain ⟨hvac, hcalls, hkeep⟩ := pop_none op key hpop
        obtain ⟨hall, hcalls'⟩ := ih h
        refine ⟨fun k hk => ?_, ?_⟩
        · by_cases hkey : k = key
          · rw [hkey]
            exact hvac
          · rw [← vacant_congr (hkeep k hkey)]
            exact hall k ((List.mem_cons.mp hk).resolve_left hkey)
        · rw [hcalls', hcalls, List.length_cons]
          omega
      · cases h
      · cases h
      · cases h

/-! ## Frames that block -/

/-- The blocking pop a command stands for. -/
def blockingOp : Option Command → Option BlockingOp
  | some .blpop => some .blpop
  | some .brpop => some .brpop
  | _ => none

/-- The word in the complaints of a blocking pop. -/
def opWord : BlockingOp → String
  | .blpop => "blpop"
  | .brpop => "brpop"

/-- How long a client wants to wait: forever, or for a time; `none` is a panic. -/
def waitTime (t : Float64) : Option (Option Duration) :=
  if t.numEq ⟨0⟩ then some none else (fromSecsF64 t).map some

/-- The commands of the connection are carried out: it need not authenticate. -/
def admitted (env : Env) (conn : Connection) : Bool :=
  !(env.password.isSome && conn.state != .authenticated)

variable {env : Env} {id : ConnId}

/-- The frame is a blocking pop that finds no element and puts the connection
to sleep. -/
def wouldBlock (env : Env) (s : Server) (id : ConnId) (f : RespFrame) : Bool :=
  match s.connections.get? id, timeoutArg (frameParts f),
      bulks "key" ((frameParts f).drop 1).dropLast with
  | some conn, .ok t, .ok keys =>
      (blockingOp (frameName f)).isSome && admitted env conn &&
        !conn.transactionState.inTransaction && !s.held env (frameName f) &&
        decide (3 ≤ (frameParts f).length) && decide (conn.dbIndex < s.blocking.registries.length) &&
        keys.all (s.world.engine.vacant conn.dbIndex) &&
        ((waitTime t).bind fun d =>
          d.mapM fun d => instantAdd (env.ω (s.world.calls + keys.length)).now d).isSome
  | _, _, _ => false

/-- Whether a frame with this outcome has put its connection to sleep. -/
def fellAsleep (f : RespFrame) (r : Outcome RespFrame) : Bool :=
  (blockingOp (frameName f)).isSome &&
    match r with
    | .ok .noResponse => true
    | _ => false

theorem bulks_error {what : String} {f : RespFrame} (ps : Parts) (h : bulks what ps = .error f) :
    ∃ msg, f = .err msg := by
  induction ps with
  | nil => cases h
  | cons p ps ih =>
      rw [bulks] at h
      cases hp : p.bulk? with
      | none =>
          rw [hp] at h
          cases h
          exact ⟨_, rfl⟩
      | some bytes =>
          rw [hp] at h
          cases hb : bulks what ps with
          | error g =>
              rw [hb] at h
              cases h
              exact ih hb
          | ok keys =>
              rw [hb] at h
              cases h

theorem timeoutArg_error {parts : Parts} {f : RespFrame} (h : timeoutArg parts = .error f) :
    ∃ msg, f = .err msg := by
  unfold timeoutArg at h
  split at h
  · split at h
    · cases h
      exact ⟨_, rfl⟩
    · cases h
  · cases h
    exact ⟨_, rfl⟩

/-- The part of a blocking pop behind its timeout is calm, or puts to sleep. -/
theorem popOrBlock_cases {db : Nat} {parts : Parts} (op : BlockingOp) (timeout : Option Duration)
    (s : Server) :
    Server.Calm id s (popOrBlock env op db id parts timeout s).2 ∧
        (popOrBlock env op db id parts timeout s).1 ≠ .ok .noResponse ∨
      ∃ keys, bulks "key" (parts.drop 1).dropLast = .ok keys ∧ db < s.blocking.registries.length ∧
        (∀ key ∈ keys, s.world.engine.vacant db key = true) ∧
        (timeout.mapM fun d => instantAdd (env.ω (s.world.calls + keys.length)).now d) ≠ none ∧
        (popOrBlock env op db id parts timeout s).1 = .ok .noResponse ∧
        (s.connections.contains id →
          (popOrBlock env op db id parts timeout s).2.isBlocked id = true) := by
  unfold popOrBlock
  cases hkeys : bulks "key" (parts.drop 1).dropLast with
  | error f =>
      obtain ⟨msg, rfl⟩ := bulks_error _ hkeys
      exact .inl ⟨.refl id s, by rintro ⟨⟩⟩
  | ok keys =>
      have hstore := Server.Calm.onStore env (tryPops op db keys) id s
      simp only [Action.reading, Action.storing]
      rcases hr : s.onStore env (tryPops op db keys) with ⟨found | e | _, s'⟩
      all_goals rw [hr] at hstore
      · cases found with
        | some p => exact .inl ⟨hstore, by rintro ⟨⟩⟩
        | none =>
            obtain ⟨hres, hs'⟩ := Prod.mk.inj hr
            obtain ⟨hvac, hcalls⟩ := tryPops_none op keys (Prod.ext hres rfl)
            have hcalls' : s'.world.calls = s.world.calls + keys.length := by
              rw [← hs']
              exact hcalls
            rcases @block_cases env id db op keys timeout s' with
              ⟨hs, hne⟩ | ⟨hd, hdb, hok, -, hb⟩
            · exact .inl ⟨hs.symm ▸ hstore, hne⟩
            · refine .inr ⟨keys, rfl, ?_, hvac, ?_, hok, fun hc => hb ?_⟩
              · rwa [← hs'] at hdb
              · rwa [← hcalls']
              · rwa [← hs']
      · exact .inl ⟨hstore, by rintro ⟨⟩⟩
      · exact .inl ⟨hstore, by rintro ⟨⟩⟩

/-- A blocking pop whose number of parts and whose timeout are accepted. -/
theorem blockingPop_eq {cmd : String} {db : Nat} {parts : Parts} {t : Float64} (op : BlockingOp)
    (hlen : 3 ≤ parts.length) (ht : timeoutArg parts = .ok t) :
    blockingPop env cmd op db id parts =
      match waitTime t with
      | none => fun s => (.panic, s)
      | some d => popOrBlock env op db id parts d := by
  have hargs : (do arity cmd (3 ≤ parts.length); timeoutArg parts) = .ok t := by
    simp only [arity, hlen, decide_true, if_true, ht]
    rfl
  unfold blockingPop
  rw [hargs, Action.reading, waitTime]
  split
  · rfl
  · cases fromSecsF64 t <;> rfl

/-- A blocking pop that reaches its handler. -/
theorem blockingPop_cases {db : Nat} {parts : Parts} (op : BlockingOp) (s : Server) :
    Server.Calm id s (blockingPop env (opWord op) op db id parts s).2 ∧
        (blockingPop env (opWord op) op db id parts s).1 ≠ .ok .noResponse ∨
      ∃ t keys, timeoutArg parts = .ok t ∧ bulks "key" (parts.drop 1).dropLast = .ok keys ∧
        3 ≤ parts.length ∧ db < s.blocking.registries.length ∧
        keys.all (s.world.engine.vacant db) = true ∧
        ((waitTime t).bind fun d =>
          d.mapM fun d => instantAdd (env.ω (s.world.calls + keys.length)).now d).isSome = true ∧
        (blockingPop env (opWord op) op db id parts s).1 = .ok .noResponse ∧
        (s.connections.contains id →
          (blockingPop env (opWord op) op db id parts s).2.isBlocked id = true) := by
  by_cases hlen : 3 ≤ parts.length
  · cases ht : timeoutArg parts with
    | error f =>
        obtain ⟨msg, rfl⟩ := timeoutArg_error ht
        simp only [blockingPop, arity, hlen, decide_true, if_true, ht]
        exact .inl ⟨.refl id s, by rintro ⟨⟩⟩
    | ok t =>
        rw [blockingPop_eq op hlen ht]
        cases hd : waitTime t with
        | none => exact .inl ⟨.refl id s, by rintro ⟨⟩⟩
        | some d =>
            rcases @popOrBlock_cases env id db parts op d s with
              hcalm | ⟨keys, hkeys, hdb, hvac, hdeadline, hok, hb⟩
            · exact .inl hcalm
            · exact .inr ⟨t, keys, rfl, hkeys, hlen, hdb, List.all_eq_true.mpr hvac,
                Option.isSome_iff_ne_none.mpr (hd ▸ hdeadline), hok, hb⟩
  · simp only [blockingPop, arity, hlen, decide_false, Bool.false_eq_true, if_false]
    exact .inl ⟨.refl id s, by rintro ⟨⟩⟩

theorem frameName_eq_some {f : RespFrame} {c : Command} (h : frameName f = some c) :
    ∃ first rest bytes, f = .array (some (first :: rest)) ∧ first.bulk? = some bytes ∧
      Command.parse (Command.rawName bytes) = some c := by
  unfold frameName at h
  split at h
  · next first rest =>
      obtain ⟨bytes, hb, hc⟩ := Option.bind_eq_some_iff.mp h
      exact ⟨first, rest, bytes, rfl, hb, hc⟩
  · cases h

theorem blockingOp_eq_some {c : Option Command} {op : BlockingOp} (h : blockingOp c = some op) :
    c = some .blpop ∧ op = .blpop ∨ c = some .brpop ∧ op = .brpop := by
  unfold blockingOp at h
  split at h
  · exact .inl ⟨rfl, (Option.some.inj h).symm⟩
  · exact .inr ⟨rfl, (Option.some.inj h).symm⟩
  · cases h

/-- Behind the gate a blocking pop is neither logged nor propagated. -/
theorem processNormalCommand_blocking {parts : Parts} {bytes : Bytes} {op : BlockingOp} {c : Command}
    (hb : (parts.head?).bind RespFrame.bulk? = some bytes)
    (hc : Command.parse (Command.rawName bytes) = some c) (hop : blockingOp (some c) = some op)
    (db : Nat) (s : Server) :
    processNormalCommand env parts db id s = blockingPop env (opWord op) op db id parts s := by
  have hlog : logCommand env false parts s = s := by simp [logCommand]
  have hprop (r : Outcome RespFrame × Server) : (r.1, propagate false parts r.1 r.2) = r := by
    obtain ⟨f | e | _, s'⟩ := r <;> rfl
  have hdispatch (h : c = .blpop ∨ c = .brpop) : processNormalCommand env parts db id s =
      dispatch env db id parts (Command.rawName bytes) s := by
    have hw : ((Command.parse (Command.rawName bytes)).map Command.isWrite).getD false = false := by
      rcases h with rfl | rfl <;> rw [hc] <;> rfl
    simp only [processNormalCommand, hb, hw, hlog]
    exact hprop _
  obtain ⟨h, rfl⟩ | ⟨h, rfl⟩ := blockingOp_eq_some hop
  · obtain rfl := Option.some.inj h
    rw [hdispatch (.inl rfl), dispatch, hc]
    rfl
  · obtain rfl := Option.some.inj h
    rw [hdispatch (.inr rfl), dispatch, hc]
    rfl

/-- The gate in front of a blocking pop. -/
theorem answerFrame_blocking {f : RespFrame} {op : BlockingOp} (hop : blockingOp (frameName f) = some op)
    (s : Server) :
    answerFrame env id f s =
      match s.connections.get? id with
      | none => (.ok (.err "ERR connection not found"), s)
      | some conn =>
          if admitted env conn = false then (.ok (.err "NOAUTH Authentication required"), s)
          else if conn.transactionState.inTransaction then queueCommand id (frameParts f) s
          else if s.held env (frameName f) then
            (.ok (.err "ERR CLIENT PAUSE active, please retry later"), s)
          else blockingPop env (opWord op) op conn.dbIndex id (frameParts f) s := by
  obtain ⟨c, hc⟩ : ∃ c, frameName f = some c := by
    obtain ⟨h, -⟩ | ⟨h, -⟩ := blockingOp_eq_some hop
    · exact ⟨_, h⟩
    · exact ⟨_, h⟩
  obtain ⟨first, rest, bytes, rfl, hb, hparse⟩ := frameName_eq_some hc
  rw [hc] at hop
  have hnormal := @processNormalCommand_blocking env id (first :: rest) _ _ _ hb hparse hop
  have hframe : answerFrame env id (.array (some (first :: rest))) s =
      processParts env id (first :: rest) (some c) s := by
    obtain ⟨h, -⟩ | ⟨h, -⟩ := blockingOp_eq_some hop
    all_goals
      rw [answerFrame, hc, h]
      simp only [processFrame, hb, Command.cleanName_of_parse hparse, hparse, h]
  rw [hframe]
  unfold processParts withConnection
  cases hconn : s.connections.get? id with
  | none => rfl
  | some conn =>
      dsimp only
      by_cases hauth : env.password.isSome ∧ conn.state ≠ .authenticated
      · have had : admitted env conn = false := by simp [admitted, hauth.1, hauth.2]
        rw [if_pos hauth, if_pos had]
        obtain ⟨h, -⟩ | ⟨h, -⟩ := blockingOp_eq_some hop <;> rw [h] <;> rfl
      · have had : ¬ admitted env conn = false := fun h => hauth (by simpa [admitted] using h)
        have himm : (some c).bind (immediate env id (first :: rest)) = none := by
          obtain ⟨h, -⟩ | ⟨h, -⟩ := blockingOp_eq_some hop <;> rw [h] <;> rfl
        rw [if_neg hauth, if_neg had, afterAuth, himm]
        dsimp only
        split
        · rfl
        · simp only [hc, frameParts, hnormal]

/-- What a frame does that does not put its connection to sleep. -/
structure Awake (env : Env) (id : ConnId) (f : RespFrame) (s : Server) : Prop where
  footprint : Footprint id s (answerFrame env id f s).2
  calm : authenticates env f = false → Server.Calm id s (answerFrame env id f s).2
  awake : (answerFrame env id f s).2.isBlocked id = true → s.isBlocked id = true
  notAsleep : fellAsleep f (answerFrame env id f s).1 = false

theorem Awake.of_calm {f : RespFrame} {s : Server} (h : Server.Calm id s (answerFrame env id f s).2)
    (hf : fellAsleep f (answerFrame env id f s).1 = false) : Awake env id f s :=
  ⟨h.toFootprint, fun _ => h, h.isBlocked, hf⟩

/-- A frame leaves its connection awake, or it is a blocking pop that reaches
its handler. -/
theorem answerFrame_cases (hid : id ≠ 0) (f : RespFrame) (s : Server) :
    Awake env id f s ∨
      ∃ conn op, s.connections.get? id = some conn ∧ blockingOp (frameName f) = some op ∧
        admitted env conn = true ∧ conn.transactionState.inTransaction = false ∧
        s.held env (frameName f) = false ∧
        answerFrame env id f s = blockingPop env (opWord op) op conn.dbIndex id (frameParts f) s := by
  cases hop : blockingOp (frameName f) with
  | none =>
      have hfell : fellAsleep f (answerFrame env id f s).1 = false := by simp [fellAsleep, hop]
      cases hauth : authenticates env f with
      | false =>
          refine .inl (.of_calm (gentle_answerFrame hid hauth (fun c hc h => ?_) s) hfell)
          rw [h] at hop
          rcases List.mem_cons.mp hc with rfl | hc
          · cases hop
          · rw [List.mem_singleton.mp hc] at hop
            cases hop
      | true =>
          have hc : cleanCommand f = some .auth := by
            simpa using (Bool.and_eq_true_iff.mp hauth).1
          rcases @answerFrame_auth env id f hc s with hs | hs
          · refine .inl (.of_calm ?_ hfell)
            rw [hs]
            exact .refl id s
          · refine .inl ⟨?_, fun hno => ?_, fun hb => ?_, hfell⟩
            · rw [hs]
              exact within_handleAuth id _ s
            · rw [hno] at hauth
              cases hauth
            · rw [hs] at hb
              exact isBlocked_handleAuth id _ hb
  | some op =>
      have hgate := @answerFrame_blocking env id _ _ hop s
      cases hconn : s.connections.get? id with
      | none =>
          rw [hconn] at hgate
          exact .inl (.of_calm (hgate ▸ .refl id s) (hgate ▸ Bool.and_false _))
      | some conn =>
          rw [hconn] at hgate
          dsimp only at hgate
          split at hgate
          · exact .inl (.of_calm (hgate ▸ .refl id s) (hgate ▸ Bool.and_false _))
          · next had =>
              split at hgate
              · refine .inl (.of_calm ?_ ?_)
                · rw [hgate]
                  exact Action.Gentle.withConnection (fun c s => calm_setTransaction s id _) s
                · rw [hgate]
                  unfold queueCommand withConnection
                  rw [hconn]
                  exact Bool.and_false _
              · next htx =>
                  split at hgate
                  · exact .inl (.of_calm (hgate ▸ .refl id s) (hgate ▸ Bool.and_false _))
                  · next hheld =>
                      exact .inr ⟨conn, op, rfl, rfl, by simpa using had, by simpa using htx,
                        by simpa using hheld, hgate⟩

/-- What a frame does to the connection it came from: it does not put it to
sleep, or the state before says so. -/
theorem answerFrame_sleeps (hid : id ≠ 0) (f : RespFrame) (s : Server) :
    Awake env id f s ∨
      wouldBlock env s id f = true ∧ (answerFrame env id f s).1 = .ok .noResponse ∧
        fellAsleep f (answerFrame env id f s).1 = true ∧
        Footprint id s (answerFrame env id f s).2 ∧ (answerFrame env id f s).2.isBlocked id = true := by
  rcases @answerFrame_cases env id hid f s with hawake | ⟨conn, op, hconn, hop, had, htx, hheld, heq⟩
  · exact .inl hawake
  · have hfoot : Footprint id s (answerFrame env id f s).2 := heq ▸ within_blockingPop id _ _ _ op s
    rcases @blockingPop_cases env id _ (frameParts f) op s with
      ⟨hcalm, hne⟩ | ⟨t, keys, ht, hkeys, hlen, hdb, hvac, hd, hok, hb⟩
    · refine .inl (.of_calm (heq ▸ hcalm) ?_)
      unfold fellAsleep
      rw [hop, heq]
      split
      · next h => exact absurd h hne
      · rfl
    · rw [heq] at hfoot ⊢
      refine .inr ⟨?_, hok, ?_, hfoot, hb (by rw [Map.contains, hconn]; rfl)⟩
      · simp only [wouldBlock, hconn, ht, hkeys, hop, had, htx, hheld, hlen, hdb, hvac, hd]
        rfl
      · simp [fellAsleep, hop, hok]

theorem within_answerFrame (hid : id ≠ 0) (f : RespFrame) (s : Server) :
    Footprint id s (answerFrame env id f s).2 := by
  rcases @answerFrame_sleeps env id hid f s with hawake | ⟨-, -, -, hfoot, -⟩
  · exact hawake.footprint
  · exact hfoot

end Server

end Ferrous
