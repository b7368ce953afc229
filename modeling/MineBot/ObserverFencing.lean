import Mathlib
import MineBot.History
import MineBot.ObserverControl

/-!
# Observer lease fencing

The high-water mark `lastGeneration`, the session's own generation, the
generation a cleanup burns and the reply cache are four pieces of state. What
ties them together: an active session is always at the high-water mark
(`Fenced.active`), and the cache is the last 128 replies that were
acknowledged (`Fenced.cache`).

- `handle_effect`: what a request does.
- `Fenced.step`: the invariant along one entry into the channel.
- `observer_fencing`: the fencing law over every run.
-/

namespace MineBot

namespace ObserverControl

section

variable {σ : Type} {α β : Type} {platform : Platform} {access : Access σ} {config : Config}
variable {c c' : Channel} {request : JsonObject} {w w' : σ} {m : Mutation} {answer : Answer}

/-! ## Computations that end well -/

/-- Started in `w`, the computation answers `a` and leaves `w'`. -/
def Ends (x : AccessM σ α) (w : σ) (a : α) (w' : σ) : Prop := x.run.run w = (.ok a, w')

theorem ends_bind {x : AccessM σ α} {f : α → AccessM σ β} {b : β} :
    Ends (x >>= f) w b w' ↔ ∃ a w₁, Ends x w a w₁ ∧ Ends (f a) w₁ b w' := by
  simp only [Ends, ExceptT.run_bind, StateT.run_bind]
  constructor
  · intro h
    generalize hx : x.run.run w = r at h
    obtain ⟨r, w₁⟩ := r
    cases r with
    | ok a => exact ⟨a, w₁, rfl, h⟩
    | error e => cases h
  · rintro ⟨a, w₁, hx, hf⟩
    rw [hx]
    exact hf

theorem ends_pure {a a' : α} : Ends (pure a : AccessM σ α) w a' w' ↔ a = a' ∧ w = w' := by
  constructor
  · intro h
    cases h
    exact ⟨rfl, rfl⟩
  · rintro ⟨rfl, rfl⟩
    rfl

theorem not_ends_throw {e : Exc} {f : β → AccessM σ α} {a : α} :
    ¬ Ends ((throw e : AccessM σ β) >>= f) w a w' := by
  intro h
  cases h

theorem ends_lift {r : Except Exc α} {a : α} :
    Ends (liftM r : AccessM σ α) w a w' ↔ r = .ok a ∧ w = w' := by
  cases r with
  | ok b =>
      constructor
      · intro h
        cases h
        exact ⟨rfl, rfl⟩
      · rintro ⟨h, rfl⟩
        cases h
        rfl
  | error e =>
      constructor
      · intro h
        cases h
      · rintro ⟨h, -⟩
        cases h

theorem ends_state {x : StateM σ α} {a : α} :
    Ends (liftM x : AccessM σ α) w a w' ↔ x.run w = (a, w') := by
  constructor
  · intro h
    cases h
    rfl
  · intro h
    show ((x.run w).map Except.ok id : Except Exc α × σ) = _
    rw [h]
    rfl

theorem run_bind (x : StateM σ α) (f : α → StateM σ β) (w : σ) :
    (x >>= f).run w = (f (x.run w).1).run (x.run w).2 := rfl

/-! ## What a request does -/

/-- The lease, the mark and the replies are those of before. -/
structure Channel.Kept (c c' : Channel) : Prop where
  session : c'.session = c.session
  lastGeneration : c'.lastGeneration = c.lastGeneration
  recentResponses : c'.recentResponses = c.recentResponses

theorem cache_session (reply : JsonObject) : (c.cache m reply).session = c.session := by
  unfold Channel.cache
  rfl

theorem cache_lastGeneration (reply : JsonObject) :
    (c.cache m reply).lastGeneration = c.lastGeneration := by
  unfold Channel.cache
  rfl

theorem cache_recentResponses (reply : JsonObject) : (c.cache m reply).recentResponses =
    (c.recentResponses.set m.cacheKey reply).rtake maxIdempotencyEntries := by
  simp only [Channel.cache, List.rtake]

/-- What an acknowledged request of a type does to the lease and the mark. -/
inductive Granted (c : Channel) (m : Mutation) (c' : Channel) : String → Prop where
  | attach {active : Session} : c.session = none → c.lastGeneration < m.generation →
      c'.session = some active → active.generation = m.generation →
      c'.lastGeneration = max c.lastGeneration m.generation → Granted c m c' "ATTACH"
  | update {active active' : Session} : c.session = some active →
      isSuccessorGeneration active m = true → c'.session = some active' →
      active'.generation = m.generation →
      c'.lastGeneration = max c.lastGeneration m.generation → Granted c m c' "UPDATE"
  | heartbeat {active active' : Session} : c.session = some active →
      isCurrentGeneration active m = true → c'.session = some active' →
      active'.generation = active.generation →
      c'.lastGeneration = c.lastGeneration → Granted c m c' "HEARTBEAT"
  | detach {active : Session} : c.session = some active →
      isSuccessorGeneration active m = true → c'.session = none →
      c'.lastGeneration = max c.lastGeneration m.generation → Granted c m c' "DETACH"

/-- What a request does to the channel and to the Minecraft side. -/
def Handled (platform : Platform) (config : Config) (c : Channel) (request : JsonObject) (w : σ)
    (answer : Answer) (c' : Channel) (w' : σ) : Prop :=
  match answer with
  | .acknowledged m reply =>
      parseMutation platform config request = .ok m ∧ c.cached m = none ∧
        c'.recentResponses = (c.cache m reply).recentResponses ∧
        ∃ type, stringField platform request "type" = some type ∧ Granted c m c' type
  | .repeated reply =>
      c' = c ∧ w' = w ∧ ∃ m, parseMutation platform config request = .ok m ∧
        c.cached m = some reply
  | .informed _ | .refused _ => c.Kept c'

theorem applyMode_effect {candidate active : Session}
    (h : Ends (applyMode platform access config candidate request) w active w') :
    active.generation = candidate.generation := by
  unfold applyMode at h
  split at h
  · simp only [ends_bind] at h
    obtain ⟨id, _, -, name, _, -, h⟩ := h
    split at h
    · exact absurd h not_ends_throw
    · simp only [ends_bind] at h
      obtain ⟨_, _, -, _, _, -, _, _, -, h⟩ := h
      split at h
      · exact absurd h not_ends_throw
      · simp only [ends_bind, ends_pure] at h
        obtain ⟨_, _, -, _, _, -, rfl, -⟩ := h
        rfl
  · simp only [ends_bind, ends_pure] at h
    obtain ⟨_, _, -, _, _, -, _, _, -, _, _, -, rfl, -⟩ := h
    rfl

theorem requireSession_ok {accepts : Session → Mutation → Bool} {active : Session}
    (h : c.requireSession accepts m = .ok active) :
    c.session = some active ∧ accepts active m = true := by
  unfold Channel.requireSession at h
  split at h
  · cases h
  · next active' hsome =>
      split at h
      · next haccepts =>
          cases h
          exact ⟨hsome, haccepts⟩
      · cases h

theorem handleHello_effect
    (h : Ends (handleHello platform access config c request) w (answer, c') w') :
    Handled platform config c request w answer c' w' := by
  simp only [handleHello, ends_bind] at h
  obtain ⟨protocol, _, -, h⟩ := h
  split at h
  · exact absurd h not_ends_throw
  · obtain ⟨h, -⟩ := ends_pure.mp h
    cases h
    exact ⟨rfl, rfl, rfl⟩

theorem handleAttach_effect (htype : stringField platform request "type" = some "ATTACH")
    (h : Ends (handleAttach platform access config c request) w (answer, c') w') :
    Handled platform config c request w answer c' w' := by
  simp only [handleAttach, ends_bind, ends_lift] at h
  obtain ⟨m, _, ⟨hm, rfl⟩, h⟩ := h
  split at h
  · next reply hcached =>
      obtain ⟨h, rfl⟩ := ends_pure.mp h
      cases h
      exact ⟨rfl, rfl, m, hm, hcached⟩
  · next hcached =>
      split at h
      · exact absurd h not_ends_throw
      · next hfree =>
          split at h
          · exact absurd h not_ends_throw
          · next hstale =>
              simp only [ends_bind, ends_lift, ends_pure] at h
              obtain ⟨_, _, -, mode, _, -, _, _, -, active, _, happly, h, -⟩ := h
              cases h
              have hgen := applyMode_effect happly
              exact ⟨hm, hcached, rfl, _, htype,
                .attach (by simpa using hfree) (by omega) rfl hgen rfl⟩

theorem handleUpdate_effect (htype : stringField platform request "type" = some "UPDATE")
    (h : Ends (handleUpdate platform access config c request) w (answer, c') w') :
    Handled platform config c request w answer c' w' := by
  simp only [handleUpdate, ends_bind, ends_lift] at h
  obtain ⟨m, _, ⟨hm, rfl⟩, h⟩ := h
  split at h
  · next reply hcached =>
      obtain ⟨h, rfl⟩ := ends_pure.mp h
      cases h
      exact ⟨rfl, rfl, m, hm, hcached⟩
  · next hcached =>
      simp only [ends_bind, ends_lift, ends_pure] at h
      obtain ⟨active, _, ⟨hactive, -⟩, _, _, -, mode, _, -, candidate, _, happly, h, -⟩ := h
      cases h
      obtain ⟨hsome, haccepts⟩ := requireSession_ok hactive
      exact ⟨hm, hcached, rfl, _, htype, .update hsome haccepts rfl (applyMode_effect happly) rfl⟩

theorem handleHeartbeat_effect (htype : stringField platform request "type" = some "HEARTBEAT")
    (h : Ends (handleHeartbeat platform config c request) w (answer, c') w') :
    Handled platform config c request w answer c' w' := by
  simp only [handleHeartbeat, ends_bind, ends_lift] at h
  obtain ⟨m, _, ⟨hm, rfl⟩, h⟩ := h
  split at h
  · next reply hcached =>
      obtain ⟨h, rfl⟩ := ends_pure.mp h
      cases h
      exact ⟨rfl, rfl, m, hm, hcached⟩
  · next hcached =>
      simp only [ends_bind, ends_lift, ends_pure] at h
      obtain ⟨active, _, ⟨hactive, -⟩, h, -⟩ := h
      cases h
      obtain ⟨hsome, haccepts⟩ := requireSession_ok hactive
      exact ⟨hm, hcached, rfl, _, htype, .heartbeat hsome haccepts rfl rfl (cache_lastGeneration _)⟩

/-- Expiry and detaching end the lease; with a session to end they also burn
the cleanup generation. -/
theorem expireSessionAt_channel (access : Access σ) (disconnect : Bool) (reason : String)
    (cleanupGeneration : Int) (c : Channel) (w : σ) :
    let c' := ((expireSessionAt access disconnect reason cleanupGeneration c).run w).1
    c'.session = none ∧ c'.recentResponses = c.recentResponses ∧
      c'.lastGeneration = match c.session with
        | none => c.lastGeneration
        | some _ => max c.lastGeneration cleanupGeneration := by
  cases hsession : c.session with
  | none =>
      simp only [expireSessionAt, hsession]
      exact ⟨rfl, rfl, rfl⟩
  | some active =>
      simp only [expireSessionAt, hsession]
      exact ⟨rfl, rfl, rfl⟩

theorem handleDetach_effect (htype : stringField platform request "type" = some "DETACH")
    (h : Ends (handleDetach platform access config c request) w (answer, c') w') :
    Handled platform config c request w answer c' w' := by
  simp only [handleDetach, ends_bind, ends_lift] at h
  obtain ⟨m, _, ⟨hm, rfl⟩, h⟩ := h
  split at h
  · next reply hcached =>
      obtain ⟨h, rfl⟩ := ends_pure.mp h
      cases h
      exact ⟨rfl, rfl, m, hm, hcached⟩
  · next hcached =>
      simp only [ends_bind, ends_lift, ends_pure] at h
      obtain ⟨active, _, ⟨hactive, rfl⟩, c₁, w₁, hexpire, h, -⟩ := h
      obtain ⟨hsome, haccepts⟩ := requireSession_ok hactive
      cases h
      generalize hreply : sessionResponse platform request "DETACH_ACK" _ = reply at hexpire ⊢
      obtain ⟨hsession, hresponses, hlast⟩ :=
        expireSessionAt_channel access false "detached" m.generation (c.cache m reply) w
      have hc : ((expireSessionAt access false "detached" m.generation (c.cache m reply)).run w).1
          = c' := by
        exact congrArg Prod.fst (ends_state.mp hexpire)
      rw [hc] at hsession hresponses hlast
      rw [cache_session, hsome, cache_lastGeneration] at hlast
      exact ⟨hm, hcached, hresponses, _, htype, .detach hsome haccepts hsession hlast⟩

theorem handleStatus_effect
    (h : Ends (handleStatus platform access c request) w (answer, c') w') :
    Handled platform config c request w answer c' w' := by
  simp only [handleStatus, ends_bind, ends_pure] at h
  obtain ⟨_, _, -, _, _, -, h, -⟩ := h
  cases h
  exact ⟨rfl, rfl, rfl⟩

/-- The types that carry a mutation. -/
def mutationTypes : List String := ["ATTACH", "UPDATE", "HEARTBEAT", "DETACH"]

theorem handleType_effect {type : String} (htype : stringField platform request "type" = some type)
    (hmem : type ∈ requestTypes)
    (h : Ends (handleType platform access config type c request) w (answer, c') w') :
    Handled platform config c request w answer c' w' := by
  simp only [requestTypes, List.mem_cons, List.not_mem_nil, or_false] at hmem
  rcases hmem with rfl | rfl | rfl | rfl | rfl | rfl
  · exact handleAttach_effect htype h
  · exact handleDetach_effect htype h
  · exact handleHeartbeat_effect htype h
  · exact handleHello_effect h
  · exact handleStatus_effect h
  · exact handleUpdate_effect htype h

/-- **A request.** -/
theorem handle_effect (platform : Platform) (access : Access σ) (config : Config)
    (request : JsonObject) (serverTick : Int) (c : Channel) (w : σ) :
    let result := (handle platform access config request serverTick c).run w
    Handled platform config { c with currentTick := serverTick } request w
      result.1.1 result.1.2 result.2 := by
  have hrefused : ∀ (reply : JsonObject) (error : Option String) (w' : σ),
      Handled platform config { c with currentTick := serverTick } request w (.refused reply)
        { c with currentTick := serverTick, lastErrorCode := error } w' :=
    fun _ _ _ => ⟨rfl, rfl, rfl⟩
  unfold handle
  cases htype : stringField platform request "type" with
  | none => exact hrefused _ _ _
  | some type =>
      by_cases hmem : type ∈ requestTypes
      · simp only [hmem, not_true_eq_false, if_false, StateT.run_bind]
        generalize hr : (handleType platform access config type { c with currentTick := serverTick }
          request).run.run w = r
        obtain ⟨r, w'⟩ := r
        rcases r with (_ | _ | _) | ⟨answer, c'⟩
        · exact hrefused _ _ _
        · exact hrefused _ _ _
        · exact hrefused _ _ _
        · exact handleType_effect htype hmem hr
      · simp only [hmem, not_false_eq_true, if_true]
        exact hrefused _ _ _

/-- A request that was acknowledged before gets the reply of then, and nothing
else happens. -/
theorem handle_cached {type : String} {reply : JsonObject} (serverTick : Int) (w : σ)
    (htype : stringField platform request "type" = some type) (hmem : type ∈ mutationTypes)
    (hm : parseMutation platform config request = .ok m) (hcached : c.cached m = some reply) :
    (handle platform access config request serverTick c).run w =
      ((.repeated reply, { c with currentTick := serverTick }), w) := by
  have hhandled : (handleType platform access config type { c with currentTick := serverTick }
      request).run.run w = (.ok (.repeated reply, { c with currentTick := serverTick }), w) := by
    have hcached : Channel.cached { c with currentTick := serverTick } m = some reply := hcached
    show Ends _ _ _ _
    simp only [mutationTypes, List.mem_cons, List.not_mem_nil, or_false] at hmem
    rcases hmem with rfl | rfl | rfl | rfl
    all_goals
      refine ends_bind.mpr ⟨m, w, ends_lift.mpr ⟨hm, rfl⟩, ?_⟩
      rw [hcached]
      exact ends_pure.mpr ⟨rfl, rfl⟩
  have hmem : type ∈ requestTypes := by
    have : mutationTypes ⊆ requestTypes := by decide
    exact this hmem
  unfold handle
  simp only [htype, hmem, not_true_eq_false, if_false]
  rw [StateT.run_bind, hhandled]
  rfl

/-! ## Ticks -/

/-- What happens to the lease and the mark without a request. -/
inductive Passed (c c' : Channel) : Prop where
  | kept : c.Kept c' → Passed c c'
  | driven {active active' : Session} : c.session = some active → c'.session = some active' →
      active'.generation = active.generation → c'.lastGeneration = c.lastGeneration →
      c'.recentResponses = c.recentResponses → Passed c c'
  | expired {active : Session} : c.session = some active → c'.session = none →
      c'.lastGeneration = max c.lastGeneration (nextGeneration active.generation) →
      c'.recentResponses = c.recentResponses → Passed c c'

theorem expireSession_passed (disconnect : Bool) (reason : String) (c : Channel) (w : σ) :
    Passed c ((expireSession access disconnect reason c).run w).1 := by
  unfold expireSession
  cases hsession : c.session with
  | none =>
      obtain ⟨hnone, hresponses, hlast⟩ :=
        expireSessionAt_channel access disconnect reason c.lastGeneration c w
      rw [hsession] at hlast
      exact .kept ⟨hnone.trans hsession.symm, hlast, hresponses⟩
  | some active =>
      obtain ⟨hnone, hresponses, hlast⟩ := expireSessionAt_channel access disconnect
        reason (nextGeneration active.generation) c w
      rw [hsession] at hlast
      exact .expired hsession hnone hlast hresponses

theorem Passed.trans {c₁ c₂ : Channel} (h : Passed c c₁) (h' : Passed c₁ c₂) : Passed c c₂ := by
  cases h' with
  | kept h' =>
      cases h with
      | kept h => exact .kept ⟨h'.1.trans h.1, h'.2.trans h.2, h'.3.trans h.3⟩
      | driven hold hnew hgen hlast hresponses =>
          exact .driven hold (h'.1.trans hnew) hgen (h'.2.trans hlast) (h'.3.trans hresponses)
      | expired hold hnew hlast hresponses =>
          exact .expired hold (h'.1.trans hnew) (h'.2.trans hlast) (h'.3.trans hresponses)
  | driven hold' hnew' hgen' hlast' hresponses' =>
      cases h with
      | kept h =>
          exact .driven (h.1.symm.trans hold') hnew' hgen' (hlast'.trans h.2)
            (hresponses'.trans h.3)
      | driven hold hnew hgen hlast hresponses =>
          cases hnew.symm.trans hold'
          exact .driven hold hnew' (hgen'.trans hgen) (hlast'.trans hlast)
            (hresponses'.trans hresponses)
      | expired _ hnew => cases hnew.symm.trans hold'
  | expired hold' hnew' hlast' hresponses' =>
      cases h with
      | kept h =>
          exact .expired (h.1.symm.trans hold') hnew' (h.2 ▸ hlast') (hresponses'.trans h.3)
      | driven hold hnew hgen hlast hresponses =>
          cases hnew.symm.trans hold'
          exact .expired hold hnew' (by rw [hlast', hlast, hgen]) (hresponses'.trans hresponses)
      | expired _ hnew => cases hnew.symm.trans hold'

/-- The upkeep of a session leaves its generation. -/
theorem control_generation (access : Access σ) (active : Session) (w : σ) :
    (((control access active).run w).1.2).generation = active.generation := by
  unfold control
  simp only [run_bind]
  generalize access.enforceObserverPolicy.run.run w = r
  obtain ⟨_ | _, w₁⟩ := r
  · rfl
  · cases active.mode with
    | fixed => rfl
    | follow =>
        simp only [run_bind]
        generalize (access.resolveTarget active.targetId active.targetName).run.run w₁ = r
        obtain ⟨_ | target, w₂⟩ := r
        · rfl
        · simp only [run_bind]
          generalize (access.attachToTarget target.id).run.run w₂ = r
          obtain ⟨_ | _, w₃⟩ := r
          · rfl
          · rfl

theorem tick_passed (serverTick : Int) (c : Channel) (w : σ) :
    Passed c ((tick access serverTick c).run w).1 := by
  have hticked : Passed c { c with currentTick := serverTick } := .kept ⟨rfl, rfl, rfl⟩
  refine hticked.trans ?_
  unfold tick
  generalize { c with currentTick := serverTick } = c
  cases hsession : c.session with
  | none =>
      simp only [hsession]
      exact .kept ⟨rfl, rfl, rfl⟩
  | some active =>
      simp only [hsession]
      split
      · exact expireSession_passed _ _ _ _
      · split
        · exact .kept ⟨rfl, rfl, rfl⟩
        · simp only [run_bind]
          have hgen := control_generation access
            { active with nextControlTick := int32 (serverTick + controlIntervalTicks) } w
          generalize (control access _).run w = r at hgen
          obtain ⟨⟨thrown, active'⟩, w'⟩ := r
          have hdriven : ∀ (active'' : Session) (error : Option String),
              active''.generation = active'.generation →
              Passed c { c with session := some active'', lastErrorCode := error } :=
            fun active'' _ h => .driven hsession rfl (h.trans hgen) rfl rfl
          rcases thrown with _ | ⟨code, message, retryable⟩ | _ | _
          · exact hdriven _ _ rfl
          · simp only
            split
            · exact hdriven _ _ rfl
            · exact (hdriven _ _ rfl).trans (expireSession_passed _ _ _ _)
          · exact hdriven _ _ rfl
          · exact hdriven _ _ rfl

theorem close_passed (serverTick : Int) (c : Channel) (w : σ) :
    Passed c ((close access serverTick c).run w).1 := by
  have hticked : Passed c { c with currentTick := serverTick } := .kept ⟨rfl, rfl, rfl⟩
  exact hticked.trans (expireSession_passed _ _ _ _)

theorem acceptClientTelemetry_passed (senderId : String) (telemetry : Telemetry)
    (serverTick : Int) (c : Channel) :
    Passed c (acceptClientTelemetry config senderId telemetry serverTick c) := by
  unfold acceptClientTelemetry
  split
  · exact .kept ⟨rfl, rfl, rfl⟩
  · split
    · exact .kept ⟨rfl, rfl, rfl⟩
    · exact .kept ⟨rfl, rfl, rfl⟩

/-! ## The log -/

/-- One entry of the log. -/
abbrev Entry := Input × Option Answer

/-- The request an entry newly acknowledged, its mutation and the reply. -/
def acknowledged : Entry → Option (JsonObject × Mutation × JsonObject)
  | (.request request _, some (.acknowledged m reply)) => some (request, m, reply)
  | _ => none

/-- The requests newly acknowledged, in order. -/
def acks (log : List Entry) : List (JsonObject × Mutation × JsonObject) :=
  log.filterMap acknowledged

/-- The generations of the newly acknowledged `ATTACH`, `UPDATE` and `DETACH`
requests, in order. -/
def grants (platform : Platform) (log : List Entry) : List Int :=
  ((acks log).filter fun ack =>
    stringField platform ack.1 "type" ∈ [some "ATTACH", some "UPDATE", some "DETACH"]).map
    (·.2.1.generation)

/-- The cache entry of an acknowledgement. -/
def cacheEntry (ack : JsonObject × Mutation × JsonObject) : String × JsonObject :=
  (ack.2.1.cacheKey, ack.2.2)

theorem acks_snoc (log : List Entry) (entry : Entry) :
    acks (log ++ [entry]) = acks log ++ (acknowledged entry).toList := by
  simp only [acks, List.filterMap_append, List.filterMap_cons, List.filterMap_nil]
  cases acknowledged entry <;> rfl

theorem acks_append (log log' : List Entry) : acks (log ++ log') = acks log ++ acks log' :=
  List.filterMap_append

/-- What is dropped once may be dropped at once. -/
theorem rtake_snoc_rtake (l : List α) (a : α) (n : Nat) (hn : 0 < n) :
    (l.rtake n ++ [a]).rtake n = (l ++ [a]).rtake n := by
  obtain ⟨n, rfl⟩ := Nat.exists_eq_succ_of_ne_zero hn.ne'
  simp only [List.rtake_eq_reverse_take_reverse, List.reverse_append, List.reverse_reverse,
    List.reverse_singleton, List.singleton_append, List.take_succ_cons, List.take_take,
    Nat.succ_eq_add_one, Nat.min_eq_left (Nat.le_add_right n 1)]

/-- **The invariant.** -/
structure Fenced (platform : Platform) (log : List Entry) (c : Channel) : Prop where
  active : ∀ active, c.session = some active → active.generation = c.lastGeneration
  high : ∀ ack ∈ acks log, ack.2.1.generation ≤ c.lastGeneration
  rising : (grants platform log).Pairwise (· < ·)
  cache : c.recentResponses = ((acks log).map cacheEntry).rtake maxIdempotencyEntries
  keys : (c.recentResponses.map Prod.fst).Nodup

namespace Fenced

variable {log : List Entry}

theorem start (platform : Platform) : Fenced platform [] Channel.new where
  active _ h := by cases h
  high _ h := by cases h
  rising := .nil
  cache := rfl
  keys := .nil

/-- An entry that acknowledges nothing. -/
theorem quiet (h : Fenced platform log c) {entry : Entry} (hentry : acknowledged entry = none)
    (hactive : ∀ active, c'.session = some active → active.generation = c'.lastGeneration)
    (hlast : c.lastGeneration ≤ c'.lastGeneration)
    (hresponses : c'.recentResponses = c.recentResponses) :
    Fenced platform (log ++ [entry]) c' := by
  have hacks : acks (log ++ [entry]) = acks log := by
    rw [acks_snoc, hentry]
    exact List.append_nil _
  refine ⟨hactive, ?_, ?_, ?_, ?_⟩
  · rw [hacks]
    exact fun ack hack => Int.le_trans (h.high ack hack) hlast
  · rw [grants, hacks]
    exact h.rising
  · rw [hacks, hresponses]
    exact h.cache
  · rw [hresponses]
    exact h.keys

theorem kept (h : Fenced platform log c) {entry : Entry} (hentry : acknowledged entry = none)
    (hkept : c.Kept c') : Fenced platform (log ++ [entry]) c' := by
  refine h.quiet hentry ?_ (Int.le_of_eq hkept.2.symm) hkept.3
  rw [hkept.1, hkept.2]
  exact h.active

theorem passed (h : Fenced platform log c) {entry : Entry} (hentry : acknowledged entry = none)
    (hpassed : Passed c c') : Fenced platform (log ++ [entry]) c' := by
  cases hpassed with
  | kept hkept => exact h.kept hentry hkept
  | driven hold hnew hgen hlast hresponses =>
      refine h.quiet hentry ?_ (Int.le_of_eq hlast.symm) hresponses
      intro active hactive
      cases hnew.symm.trans hactive
      rw [hgen, hlast]
      exact h.active _ hold
  | expired hold hnew hlast hresponses =>
      refine h.quiet hentry ?_ (by omega) hresponses
      intro active hactive
      cases hnew.symm.trans hactive

/-- The session after an acknowledgement is at the mark, and the mark is at the
mutation's generation. -/
theorem granted (h : Fenced platform log c) {type : String} (hgranted : Granted c m c' type) :
    (∀ active, c'.session = some active → active.generation = c'.lastGeneration) ∧
      c.lastGeneration ≤ c'.lastGeneration ∧ c'.lastGeneration = m.generation ∧
      (type ≠ "HEARTBEAT" → c.lastGeneration < m.generation) := by
  cases hgranted with
  | attach hfree hstale hnew hgen hlast =>
      refine ⟨?_, by omega, by omega, fun _ => hstale⟩
      intro active hactive
      cases hnew.symm.trans hactive
      omega
  | update hold hsuccessor hnew hgen hlast =>
      have hmark := h.active _ hold
      have hrises := (of_decide_eq_true hsuccessor).2
      refine ⟨?_, by omega, by omega, fun _ => by omega⟩
      intro active hactive
      cases hnew.symm.trans hactive
      omega
  | heartbeat hold hcurrent hnew hgen hlast =>
      have hmark := h.active _ hold
      have hsame := (of_decide_eq_true hcurrent).2
      refine ⟨?_, by omega, by omega, fun hne => absurd rfl hne⟩
      intro active hactive
      cases hnew.symm.trans hactive
      omega
  | detach hold hsuccessor hnew hlast =>
      have hmark := h.active _ hold
      have hrises := (of_decide_eq_true hsuccessor).2
      refine ⟨?_, by omega, by omega, fun _ => by omega⟩
      intro active hactive
      cases hnew.symm.trans hactive

theorem handled (h : Fenced platform log c) {serverTick : Int}
    (hhandled : Handled platform config c request w answer c' w') :
    Fenced platform (log ++ [(.request request serverTick, some answer)]) c' := by
  cases answer with
  | repeated reply =>
      obtain ⟨rfl, -, -⟩ := hhandled
      exact h.kept rfl ⟨rfl, rfl, rfl⟩
  | informed reply => exact h.kept rfl hhandled
  | refused reply => exact h.kept rfl hhandled
  | acknowledged m reply =>
      obtain ⟨hm, hcached, hresponses, type, htype, hgranted⟩ := hhandled
      obtain ⟨hactive, hlast, hgen, hrises⟩ := h.granted hgranted
      have hacks : acks (log ++ [(.request request serverTick, some (.acknowledged m reply))]) =
          acks log ++ [(request, m, reply)] := acks_snoc _ _
      have hset : c.recentResponses.set m.cacheKey reply =
          c.recentResponses ++ [(m.cacheKey, reply)] := Dict.set_of_get?_none hcached
      refine ⟨hactive, ?_, ?_, ?_, ?_⟩
      · rw [hacks]
        intro ack hack
        rcases List.mem_append.mp hack with hack | hack
        · exact Int.le_trans (h.high ack hack) hlast
        · cases List.mem_singleton.mp hack
          exact Int.le_of_eq hgen.symm
      · rw [grants, hacks, List.filter_append, List.map_append, List.pairwise_append]
        refine ⟨h.rising, ?_, ?_⟩
        · rw [List.filter_cons]
          split
          · exact List.pairwise_singleton _ _
          · exact .nil
        · intro g hg g' hg'
          obtain ⟨ack, hack, rfl⟩ := List.mem_map.mp hg
          obtain ⟨ack', hack', rfl⟩ := List.mem_map.mp hg'
          obtain ⟨hack', hgrant⟩ := List.mem_filter.mp hack'
          cases List.mem_singleton.mp hack'
          refine Int.lt_of_le_of_lt (h.high ack (List.mem_filter.mp hack).1) (hrises ?_)
          rintro rfl
          rw [htype] at hgrant
          revert hgrant
          decide
      · rw [hacks, hresponses, cache_recentResponses, hset, h.cache, List.map_append]
        exact rtake_snoc_rtake _ _ _ (by decide)
      · rw [hresponses, cache_recentResponses, List.rtake, List.map_drop]
        exact (Dict.nodup_set h.keys _ _).sublist (List.drop_sublist _ _)

/-- **One entry into the channel.** -/
theorem step (access : Access σ) (config : Config) {s : State σ}
    (h : Fenced platform log s.channel) (i : Input) :
    Fenced platform (log ++ [(i, (ObserverControl.step platform access config s i).1)])
      (ObserverControl.step platform access config s i).2.channel := by
  cases i with
  | request request serverTick =>
      have hticked : Fenced platform log { s.channel with currentTick := serverTick } :=
        ⟨h.active, h.high, h.rising, h.cache, h.keys⟩
      exact hticked.handled (handle_effect platform access config request serverTick _ s.world)
  | tick serverTick => exact h.passed rfl (tick_passed serverTick _ s.world)
  | close serverTick => exact h.passed rfl (close_passed serverTick _ s.world)
  | telemetry senderId telemetry serverTick =>
      exact h.passed rfl (acceptClientTelemetry_passed senderId telemetry serverTick _)

/-- A recent acknowledgement is in the cache. -/
theorem cached (h : Fenced platform log c) {pre mid : List Entry} {entry : Entry}
    {reply : JsonObject} (hlog : log = pre ++ entry :: mid)
    (hentry : acknowledged entry = some (request, m, reply)) (hmid : (acks mid).length ≤ 127) :
    c.cached m = some reply := by
  have hacks : acks log = acks pre ++ (request, m, reply) :: acks mid := by
    rw [hlog, acks_append]
    congr 1
    rw [acks, List.filterMap_cons, hentry]
    rfl
  refine (Dict.mem_iff_get? h.keys).mp ?_
  rw [h.cache, hacks, List.map_append, List.map_cons, List.rtake]
  have hlength : ((acks pre).map cacheEntry ++ cacheEntry (request, m, reply) ::
      (acks mid).map cacheEntry).length - maxIdempotencyEntries ≤
      ((acks pre).map cacheEntry).length := by
    simp only [List.length_append, List.length_cons, List.length_map, maxIdempotencyEntries]
    omega
  rw [List.drop_append_of_le_length hlength]
  exact List.mem_append_right _ List.mem_cons_self

end Fenced

/-! ## The law -/

/-- An acknowledged request other than `ATTACH` carries the active lease. -/
theorem Granted.lease {type : String} (h : Granted c m c' type) (hne : type ≠ "ATTACH") :
    ∃ active, c.session = some active ∧ active.leaseId = m.leaseId := by
  cases h with
  | attach => exact absurd rfl hne
  | update hold hsuccessor => exact ⟨_, hold, (of_decide_eq_true hsuccessor).1⟩
  | heartbeat hold hcurrent => exact ⟨_, hold, (of_decide_eq_true hcurrent).1⟩
  | detach hold hsuccessor => exact ⟨_, hold, (of_decide_eq_true hsuccessor).1⟩

/-- A request changes the session only if it is acknowledged now. -/
theorem Handled.session (h : Handled platform config c request w answer c' w')
    (hchanged : c'.session ≠ c.session) :
    ∃ m type, parseMutation platform config request = .ok m ∧
      stringField platform request "type" = some type ∧ Granted c m c' type := by
  cases answer with
  | repeated reply => exact absurd (by rw [h.1]) hchanged
  | informed reply => exact absurd h.session hchanged
  | refused reply => exact absurd h.session hchanged
  | acknowledged m reply =>
      obtain ⟨hm, -, -, type, htype, hgranted⟩ := h
      exact ⟨m, type, hm, htype, hgranted⟩

end

/-- The fencing law, for a run of the channel that has the log `log` and
stands in `s`. -/
structure FencingLaw {σ : Type} (platform : Platform) (access : Access σ) (config : Config)
    (log : List Entry) (s : State σ) : Prop where
  rising : (grants platform log).Pairwise (· < ·)
  high : ∀ ack ∈ acks log, ack.2.1.generation ≤ s.channel.lastGeneration
  monotone : ∀ i, s.channel.lastGeneration ≤
    (step platform access config s i).2.channel.lastGeneration
  own_lease : ∀ request serverTick,
    stringField platform request "type" ∈ [some "UPDATE", some "HEARTBEAT", some "DETACH"] →
    (step platform access config s (.request request serverTick)).2.channel.session
      ≠ s.channel.session →
    ∃ active m, s.channel.session = some active ∧
      parseMutation platform config request = .ok m ∧ active.leaseId = m.leaseId
  repeated : ∀ pre mid request serverTick m reply,
    log = pre ++ (.request request serverTick, some (.acknowledged m reply)) :: mid →
    (acks mid).length ≤ 127 →
    ∀ request' serverTick' type, stringField platform request' "type" = some type →
      type ∈ mutationTypes → parseMutation platform config request' = .ok m →
      step platform access config s (.request request' serverTick') =
        (some (.repeated reply), ⟨{ s.channel with currentTick := serverTick' }, s.world⟩)

section

variable {σ : Type} {platform : Platform} {access : Access σ} {config : Config}
variable {log : List Entry} {s : State σ}

theorem Fenced.monotone (h : Fenced platform log s.channel) (i : Input) : s.channel.lastGeneration ≤
    (ObserverControl.step platform access config s i).2.channel.lastGeneration := by
  have hpassed : ∀ {c'}, Passed s.channel c' → s.channel.lastGeneration ≤ c'.lastGeneration := by
    rintro c' (hkept | ⟨_, _, _, hlast, _⟩ | ⟨_, _, hlast, _⟩)
    · exact Int.le_of_eq hkept.lastGeneration.symm
    · exact Int.le_of_eq hlast.symm
    · omega
  cases i with
  | request request serverTick =>
      have hticked : Fenced platform log { s.channel with currentTick := serverTick } :=
        ⟨h.active, h.high, h.rising, h.cache, h.keys⟩
      have hhandled := handle_effect platform access config request serverTick s.channel s.world
      show _ ≤ ((handle platform access config request serverTick s.channel).run
        s.world).1.2.lastGeneration
      revert hhandled
      generalize (handle platform access config request serverTick s.channel).run s.world = r
      obtain ⟨⟨answer, c'⟩, w'⟩ := r
      intro hhandled
      cases answer with
      | repeated reply =>
          obtain ⟨rfl, -, -⟩ := hhandled
          exact Int.le_refl _
      | informed reply => exact Int.le_of_eq hhandled.lastGeneration.symm
      | refused reply => exact Int.le_of_eq hhandled.lastGeneration.symm
      | acknowledged m reply =>
          obtain ⟨-, -, -, type, -, hgranted⟩ := hhandled
          exact (hticked.granted hgranted).2.1
  | tick serverTick => exact hpassed (tick_passed serverTick _ s.world)
  | close serverTick => exact hpassed (close_passed serverTick _ s.world)
  | telemetry senderId telemetry serverTick =>
      exact hpassed (acceptClientTelemetry_passed senderId telemetry serverTick _)

/-- **Observer lease fencing.** -/
theorem observer_fencing {w : σ}
    (h : Run (step platform access config) (fun _ _ _ => True) ⟨Channel.new, w⟩ log s) :
    FencingLaw platform access config log s := by
  have hfenced : Fenced platform log s.channel :=
    h.invariant (P := fun log s => Fenced platform log s.channel) (.start platform)
      fun log s i _ _ hs => hs.step access config i
  refine ⟨hfenced.rising, hfenced.high, hfenced.monotone, ?_, ?_⟩
  · intro request serverTick htype hchanged
    obtain ⟨m, type, hm, htype', hgranted⟩ :=
      (handle_effect platform access config request serverTick s.channel s.world).session hchanged
    obtain ⟨active, hactive, hlease⟩ := hgranted.lease (by
      rintro rfl
      rw [htype'] at htype
      revert htype
      decide)
    exact ⟨active, m, hactive, hm, hlease⟩
  · intro pre mid request serverTick m reply hlog hmid request' serverTick' type htype hmem hm
    have hrun : (handle platform access config request' serverTick' s.channel).run s.world = _ :=
      handle_cached serverTick' s.world htype hmem hm (hfenced.cached hlog rfl hmid)
    simp only [step, hrun]

end

/-! ## A run -/

/-- Strings and numbers as they stand. -/
def plainPlatform : Platform where
  asString | .str text => some text | _ => none
  asLong | .int n => some n | _ => none
  asDouble | .float x => some x | _ => none
  asBoolean | .bool b => some b | _ => none
  uuid := some
  toFloat := some
  lookAngles _ _ := (some 0, some 0)

/-- A Minecraft side that counts the calls made to it. -/
def counted {α : Type} (a : α) : AccessM Nat α := fun n => (.ok a, n + 1)

def countingAccess : Access Nat where
  minecraftVersion := "1.21"
  observerState := counted ⟨"o", true, "eye", true, false, "overworld", [0, 64, 0], none⟩
  enforceObserverPolicy := counted ()
  resolveTarget _ name := counted ⟨"t", name.getD "t"⟩
  attachToTarget _ := counted ()
  holdFixed _ := counted ()
  sendDirective _ := counted ()
  detach _ := counted ()
  serverJson := counted .null

def plainConfig : Config := ⟨"o", 100⟩

/-- A request of the lease `0123456789abcdef`. -/
def leaseRequest (type requestId : String) (generation : Int) : JsonObject :=
  [("type", .str type), ("request_id", .str requestId), ("lease_id", .str "0123456789abcdef"),
    ("observer_id", .str "o"), ("generation", .int generation), ("mode", .str "follow"),
    ("target_name", .str "steve")]

/-- A lease is taken, moved on and left to expire, and another is taken. -/
def leaseTwice : List Input :=
  [.request (leaseRequest "ATTACH" "a" 1) 0, .request (leaseRequest "UPDATE" "b" 3) 10,
    .tick 110, .request (leaseRequest "ATTACH" "c" 4) 120,
    .request (leaseRequest "ATTACH" "d" 5) 121]

/-- The generation that the expiry burnt is refused; the request that took the
lease is answered again. -/
theorem observer_fencing_leaseTwice :
    let run := exec (step plainPlatform countingAccess plainConfig) ⟨Channel.new, 0⟩ leaseTwice
    FencingLaw plainPlatform countingAccess plainConfig run.1 run.2 ∧
      grants plainPlatform run.1 = [1, 3, 5] ∧ run.2.channel.lastGeneration = 5 :=
  ⟨observer_fencing (.of_inputs leaseTwice fun _ _ _ _ => trivial), by decide, by decide⟩

end ObserverControl

end MineBot
