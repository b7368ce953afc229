import Mathlib
import MineBot.CallTraces
import MineBot.ObserverFencing

/-!
# Refused observer requests

What the observer is under is what the last successful `attachToTarget`,
`holdFixed` or `detach` set. `applyMode` takes the observer before it sends
the directive; where the directive then cannot be sent, the request is refused
and the observer stays taken, under no lease.

- `Requested`: the calls a request makes, by its answer.
- `step_calls`: the calls of one entry into the channel.
- `leaves_no_control`: a run leaves no control behind if and only if in none of
  its steps a directive is lost or a detach fails.
-/

namespace MineBot

namespace ObserverControl

/-! ## The calls that control the observer -/

inductive Call where
  | attachToTarget (targetId : String)
  | holdFixed (pose : FixedPose)
  | sendDirective
  | detach
deriving DecidableEq

/-- What the observer is under. -/
inductive Control where
  | free
  | target (targetId : String)
  | held (pose : FixedPose)
deriving DecidableEq

/-- A call, and whether it answered. -/
abbrev Calls := List (Call × Bool)

def Call.sets : Call → Option Control
  | .attachToTarget targetId => some (.target targetId)
  | .holdFixed pose => some (.held pose)
  | .sendDirective => none
  | .detach => some .free

/-- A call that takes the observer. -/
def Call.takes : Call → Bool
  | .attachToTarget _ | .holdFixed _ => true
  | .sendDirective | .detach => false

def setControl (control : Control) (call : Call × Bool) : Control :=
  if call.2 then call.1.sets.getD control else control

/-- What the last successful call set. -/
def Calls.control (calls : Calls) : Control := calls.foldl setControl .free

/-- The Minecraft side, with the calls that were made to it. -/
def Access.recorded {σ : Type} (access : Access σ) : Access (σ × Calls) where
  minecraftVersion := access.minecraftVersion
  observerState := untraced access.observerState
  enforceObserverPolicy := untraced access.enforceObserverPolicy
  resolveTarget id name := untraced (access.resolveTarget id name)
  attachToTarget id := traced (.attachToTarget id, ·) (access.attachToTarget id)
  holdFixed pose := traced (.holdFixed pose, ·) (access.holdFixed pose)
  sendDirective directive := traced (.sendDirective, ·) (access.sendDirective directive)
  detach disconnect := traced (.detach, ·) (access.detach disconnect)
  serverJson := untraced access.serverJson

section

variable {σ : Type} {platform : Platform} {access : Access σ} {config : Config}
variable {c : Channel} {request : JsonObject}

/-! ## Calls of a mode -/

/-- The calls of a mode that was not applied: none, or one that did not take the
observer, or one that did and a directive that was not sent. -/
inductive NotApplied : Calls → Prop
  | untouched : NotApplied []
  | refused {take : Call} (h : take.takes = true) : NotApplied [(take, false)]
  | lost {take : Call} (h : take.takes = true) :
      NotApplied [(take, true), (.sendDirective, false)]

/-- The calls of a mode that was. -/
def Applied (made : Calls) : Prop := ∃ take : Call, made = [(take, true), (.sendDirective, true)]

def ModeCalls {α : Type} (r : Except Exc α) (made : Calls) : Prop :=
  match r with
  | .error _ => NotApplied made
  | .ok _ => Applied made

theorem takes_and_sends {α : Type} {take : Call} (htake : take.takes = true)
    {x y : AccessM σ Unit} {result : α} :
    Emits (do
      traced (take, ·) x
      traced (.sendDirective, ·) y
      return result : AccessM (σ × Calls) α).run ModeCalls := by
  refine .run_bind (.run_traced fun r => ⟨?_, ?_⟩)
  · rintro _ rfl
    refine .run_bind (.run_traced fun r => ⟨?_, ?_⟩)
    · rintro _ rfl
      exact .run_pure ⟨take, rfl⟩
    · rintro e rfl
      exact .lost htake
  · rintro e rfl
    exact .refused htake

theorem applyMode_calls (candidate : Session) :
    Emits (applyMode platform access.recorded config candidate request).run ModeCalls := by
  unfold applyMode
  split
  · refine .run_bind (.run_lift ⟨fun targetId _ => ?_, fun e _ => .untouched⟩)
    refine .run_bind (.run_lift ⟨fun targetName _ => ?_, fun e _ => .untouched⟩)
    split
    · exact .run_throw_bind .untouched
    · refine .run_bind (.run_lift ⟨fun object _ => ?_, fun e _ => .untouched⟩)
      refine .run_bind (.run_lift ⟨fun follow _ => ?_, fun e _ => .untouched⟩)
      refine .run_bind (.run_untraced fun r => ⟨fun target _ => ?_, fun e _ => .untouched⟩)
      split
      · exact .run_throw_bind .untouched
      · exact takes_and_sends rfl
  · refine .run_bind (.run_lift ⟨fun object _ => ?_, fun e _ => .untouched⟩)
    refine .run_bind (.run_lift ⟨fun fixed _ => ?_, fun e _ => .untouched⟩)
    exact takes_and_sends rfl

/-! ## Calls of a request -/

/-- The requests that apply a mode. -/
def modeTypes : List String := ["ATTACH", "UPDATE"]

/-- The calls that end a session: nothing takes the observer before `detach`. -/
def Released (made : Calls) : Prop :=
  ∃ before answered, made = before ++ [(.detach, answered)] ∧
    ∀ call ∈ before, call.1 ≠ .detach ∧ (call.2 = true → call.1.sets = none)

/-- What a request that was answered well did. -/
inductive Served (c : Channel) : Answer × Channel → Calls → Prop
  | kept {answer : Answer} : Served c (answer, c) []
  | leased {m : Mutation} {reply : JsonObject} {c' : Channel} {made : Calls}
      (hsession : c'.session.isSome = true) (hmade : made = [] ∨ Applied made) :
      Served c (.acknowledged m reply, c') made
  | released {m : Mutation} {reply : JsonObject} {c' : Channel} {made : Calls}
      (hsession : c'.session = none) (hmade : Released made) :
      Served c (.acknowledged m reply, c') made

/-- What a request of the type does. -/
def Requested (type : String) (c : Channel) (r : Except Exc (Answer × Channel)) (made : Calls) :
    Prop :=
  match r with
  | .error _ => NotApplied made ∧ (type ∈ modeTypes ∨ made = [])
  | .ok served => Served c served made

theorem Requested.untouched {type : String} {e : Exc} : Requested type c (.error e) [] :=
  ⟨.untouched, .inr rfl⟩

theorem handleHello_calls :
    Emits (handleHello platform access.recorded config c request).run (Requested "HELLO" c) := by
  refine .run_bind (.run_lift ⟨fun protocol _ => ?_, fun e _ => .untouched⟩)
  split
  · exact .run_throw_bind Requested.untouched
  · exact .run_pure .kept

theorem handleStatus_calls :
    Emits (handleStatus platform access.recorded c request).run (Requested "STATUS" c) := by
  refine .run_bind (.run_untraced fun r => ⟨fun observer _ => ?_, fun e _ => .untouched⟩)
  refine .run_bind (.run_untraced fun r => ⟨fun server _ => ?_, fun e _ => .untouched⟩)
  exact .run_pure .kept

theorem handleHeartbeat_calls :
    Emits (handleHeartbeat platform config c request : AccessM (σ × Calls) _).run
      (Requested "HEARTBEAT" c) := by
  refine .run_bind (.run_lift ⟨fun m _ => ?_, fun e _ => .untouched⟩)
  split
  · exact .run_pure .kept
  · refine .run_bind (.run_lift ⟨fun active _ => ?_, fun e _ => .untouched⟩)
    exact .run_pure (.leased rfl (.inl rfl))

/-- The candidate of an applied mode becomes the session. -/
theorem apply_and_grant {type : String} (htype : type ∈ modeTypes) {candidate : Session}
    {f : Session → Answer × Channel}
    (hf : ∀ candidate, ∃ m reply c', f candidate = (.acknowledged m reply, c') ∧
      c'.session.isSome = true) :
    Emits (do
      let candidate ← applyMode platform access.recorded config candidate request
      return f candidate : AccessM (σ × Calls) (Answer × Channel)).run (Requested type c) := by
  refine .run_bind ((applyMode_calls candidate).imp fun r made hmade => ⟨?_, ?_⟩)
  · rintro candidate rfl
    obtain ⟨m, reply, c', heq, hsession⟩ := hf candidate
    refine .run_pure ?_
    rw [heq, List.append_nil]
    exact .leased hsession (.inr hmade)
  · rintro e rfl
    exact ⟨hmade, .inl htype⟩

theorem handleAttach_calls :
    Emits (handleAttach platform access.recorded config c request).run (Requested "ATTACH" c) := by
  refine .run_bind (.run_lift ⟨fun m _ => ?_, fun e _ => .untouched⟩)
  split
  · exact .run_pure .kept
  · dsimp only
    split
    · exact .run_throw_bind Requested.untouched
    · split
      · exact .run_throw_bind Requested.untouched
      · refine .run_bind (.run_lift ⟨fun text _ => ?_, fun e _ => .untouched⟩)
        refine .run_bind (.run_lift ⟨fun mode _ => ?_, fun e _ => .untouched⟩)
        refine .run_bind (.run_untraced fun r => ⟨fun _ _ => ?_, fun e _ => .untouched⟩)
        exact apply_and_grant (by decide) fun candidate => ⟨_, _, _, rfl, rfl⟩

theorem handleUpdate_calls :
    Emits (handleUpdate platform access.recorded config c request).run (Requested "UPDATE" c) := by
  refine .run_bind (.run_lift ⟨fun m _ => ?_, fun e _ => .untouched⟩)
  split
  · exact .run_pure .kept
  · refine .run_bind (.run_lift ⟨fun active _ => ?_, fun e _ => .untouched⟩)
    refine .run_bind (.run_lift ⟨fun text _ => ?_, fun e _ => .untouched⟩)
    refine .run_bind (.run_lift ⟨fun mode _ => ?_, fun e _ => .untouched⟩)
    exact apply_and_grant (by decide) fun candidate => ⟨_, _, _, rfl, rfl⟩

/-! ## Calls that end a session -/

variable (access) in
theorem expireSessionAt_calls (disconnect : Bool) (reason : String) (cleanupGeneration : Int)
    (c : Channel) :
    Emits (expireSessionAt access.recorded disconnect reason cleanupGeneration c)
      fun c' made => c'.session = none ∧ Released made := by
  unfold expireSessionAt
  cases hsession : c.session with
  | none =>
      simp only
      exact .bind (.pure (.bind (.run_traced fun r => .pure ⟨rfl, [], _, rfl, by simp⟩)))
  | some active =>
      simp only
      refine .bind (.run_traced fun sent => .bind (.pure (.bind (.run_traced fun r => .pure ?_))))
      exact ⟨rfl, [(.sendDirective, sent.toBool)], _, rfl, by simp [Call.sets]⟩

theorem handleDetach_calls :
    Emits (handleDetach platform access.recorded config c request).run (Requested "DETACH" c) := by
  refine .run_bind (.run_lift ⟨fun m _ => ?_, fun e _ => .untouched⟩)
  split
  · exact .run_pure .kept
  · refine .run_bind (.run_lift ⟨fun active _ => ?_, fun e _ => .untouched⟩)
    refine .run_bind (.run_lift_state ((expireSessionAt_calls _ _ _ _ _).imp fun c' made hmade => ?_))
    refine ⟨?_, fun e he => by cases he⟩
    rintro _ ⟨⟩
    refine .run_pure ?_
    rw [List.append_nil]
    exact .released hmade.1 hmade.2

/-! ## One entry into the channel -/

/-- What one entry into the channel does to the session, and the calls it makes. -/
inductive Effect (platform : Platform) (c c' : Channel) : Input → Option Answer → Calls → Prop
  | kept {i : Input} {answer : Option Answer} {made : Calls} (hsession : c'.session = c.session)
      (hmade : made = [] ∨ ∃ take : Call, take.takes = true ∧ made = [(take, false)]) :
      Effect platform c c' i answer made
  | lost {request : JsonObject} {serverTick : Int} {type : String} {reply : JsonObject}
      {take : Call} (htype : stringField platform request "type" = some type)
      (hmem : type ∈ modeTypes) (hsession : c'.session = c.session) (htake : take.takes = true) :
      Effect platform c c' (.request request serverTick) (some (.refused reply))
        [(take, true), (.sendDirective, false)]
  | leased {i : Input} {answer : Option Answer} {made : Calls}
      (hanswer : ∀ reply, answer ≠ some (.refused reply)) (hsession : c'.session.isSome = true)
      (hmade : Applied made ∨ made.length ≤ 1 ∧ (.detach, false) ∉ made) :
      Effect platform c c' i answer made
  | released {i : Input} {answer : Option Answer} {made : Calls}
      (hanswer : ∀ reply, answer ≠ some (.refused reply)) (hsession : c'.session = none)
      (hmade : Released made) : Effect platform c c' i answer made

theorem handleType_calls {type : String} (hmem : type ∈ requestTypes) :
    Emits (handleType platform access.recorded config type c request).run (Requested type c) := by
  simp only [requestTypes, List.mem_cons, List.not_mem_nil, or_false] at hmem
  rcases hmem with rfl | rfl | rfl | rfl | rfl | rfl
  · exact handleAttach_calls
  · exact handleDetach_calls
  · exact handleHeartbeat_calls
  · exact handleHello_calls
  · exact handleStatus_calls
  · exact handleUpdate_calls

variable (platform access config) in
theorem handle_calls (request : JsonObject) (serverTick : Int) (c : Channel) :
    Emits (handle platform access.recorded config request serverTick c) fun answered made =>
      Effect platform c answered.2 (.request request serverTick) (some answered.1) made := by
  have hrefused : ∀ {c' : Channel} {reply : JsonObject} {type : String} {made : Calls},
      stringField platform request "type" = some type → c'.session = c.session →
      NotApplied made → (type ∈ modeTypes ∨ made = []) →
      Effect platform c c' (.request request serverTick) (some (.refused reply)) made := by
    intro c' reply type made htype hsession hmade hmem
    cases hmade with
    | untouched => exact .kept hsession (.inl rfl)
    | refused htake => exact .kept hsession (.inr ⟨_, htake, rfl⟩)
    | lost htake =>
        exact .lost htype (hmem.resolve_right (List.cons_ne_nil _ _)) hsession htake
  unfold handle
  cases htype : stringField platform request "type" with
  | none => exact .pure (.kept rfl (.inl rfl))
  | some type =>
      simp only
      split
      · exact .pure (.kept rfl (.inl rfl))
      · next hmem =>
          refine .bind ((handleType_calls (not_not.mp hmem)).imp fun r made hmade => ?_)
          rcases r with (_ | _ | _) | ⟨answer, c'⟩
          · exact .pure (by rw [List.append_nil]; exact hrefused htype rfl hmade.1 hmade.2)
          · exact .pure (by rw [List.append_nil]; exact hrefused htype rfl hmade.1 hmade.2)
          · exact .pure (by rw [List.append_nil]; exact hrefused htype rfl hmade.1 hmade.2)
          · refine .pure ?_
            rw [List.append_nil]
            cases hmade with
            | kept => exact .kept rfl (.inl rfl)
            | leased hsession hmade =>
                refine .leased (by simp) hsession ?_
                rcases hmade with rfl | hmade
                · exact .inr (by simp)
                · exact .inl hmade
            | released hsession hmade => exact .released (by simp) hsession hmade

variable (access) in
theorem expireSession_calls (disconnect : Bool) (reason : String) (c : Channel) :
    Emits (expireSession access.recorded disconnect reason c)
      fun c' made => c'.session = none ∧ Released made := expireSessionAt_calls access _ _ _ _

/-- The upkeep of a session makes one call at most. -/
theorem control_calls (active : Session) :
    Emits (control access.recorded active) fun result made => made = [] ∨
      ∃ targetId answered, made = [(.attachToTarget targetId, answered)] ∧
        (result.1 ≠ none → answered = false) := by
  unfold control
  refine .bind (.run_untraced fun r => ?_)
  rcases r with e | _
  · exact .pure (.inl rfl)
  · cases active.mode with
    | fixed => exact .pure (.inl rfl)
    | follow =>
        refine .bind (.run_untraced fun r => ?_)
        rcases r with e | target
        · exact .pure (.inl rfl)
        · refine .bind (.run_traced fun r => ?_)
          rcases r with e | _
          · exact .pure (.inr ⟨_, _, rfl, fun _ => rfl⟩)
          · exact .pure (.inr ⟨_, _, rfl, fun h => absurd rfl h⟩)

variable (platform access) in
theorem tick_calls (serverTick : Int) (c : Channel) :
    Emits (tick access.recorded serverTick c) fun c' made =>
      Effect platform c c' (.tick serverTick) none made := by
  have hexpire : ∀ {x : StateM (σ × Calls) Channel},
      (Emits x fun c' made => c'.session = none ∧ Released made) →
      Emits x fun c' made => Effect platform c c' (.tick serverTick) none made :=
    fun h => h.imp fun c' made hmade => .released (by simp) hmade.1 hmade.2
  unfold tick
  cases hsession : c.session with
  | none => exact .pure (.kept hsession.symm (.inl rfl))
  | some active =>
      simp only
      split
      · exact hexpire (expireSession_calls _ _ _ _)
      · split
        · exact .pure (.kept hsession.symm (.inl rfl))
        · refine .bind ((control_calls _).imp fun result made hmade => ?_)
          obtain ⟨thrown, active'⟩ := result
          have hleased : ∀ c' : Channel, c'.session.isSome = true →
              Effect platform c c' (.tick serverTick) none (made ++ []) := by
            intro c' hc'
            rw [List.append_nil]
            refine .leased (by simp) hc' (.inr ?_)
            rcases hmade with rfl | ⟨targetId, answered, rfl, -⟩ <;> simp
          rcases thrown with _ | ⟨code, message, retryable⟩ | _ | _
          · exact .pure (hleased _ rfl)
          · simp only
            split
            · exact .pure (hleased _ rfl)
            · refine (expireSession_calls access true code _).imp fun c' rest hrest => ?_
              obtain ⟨hnone, before, answered, rfl, hbefore⟩ := hrest
              refine .released (by simp) hnone ⟨made ++ before, answered, by simp, ?_⟩
              intro call hcall
              rcases List.mem_append.mp hcall with hcall | hcall
              · rcases hmade with rfl | ⟨targetId, answered, rfl, hfailed⟩
                · cases hcall
                · rw [List.mem_singleton.mp hcall]
                  simp [hfailed]
              · exact hbefore call hcall
          · exact .pure (hleased _ rfl)
          · exact .pure (hleased _ rfl)

variable (platform access config) in
theorem step_calls (s : State (σ × Calls)) (i : Input) : ∃ w made,
    (step platform access.recorded config s i).2.world = (w, s.world.2 ++ made) ∧
      Effect platform s.channel (step platform access.recorded config s i).2.channel i
        (step platform access.recorded config s i).1 made := by
  obtain ⟨c, w, before⟩ := s
  cases i with
  | request request serverTick =>
      obtain ⟨answered, w', made, hrun, heffect⟩ :=
        handle_calls platform access config request serverTick c w before
      refine ⟨w', made, ?_, ?_⟩
      · simp only [step, hrun]
      · simp only [step, hrun]
        exact heffect
  | tick serverTick =>
      obtain ⟨c', w', made, hrun, heffect⟩ := tick_calls platform access serverTick c w before
      refine ⟨w', made, ?_, ?_⟩
      · simp only [step, hrun]
      · simp only [step, hrun]
        exact heffect
  | close serverTick =>
      obtain ⟨c', w', made, hrun, hnone, hreleased⟩ :=
        expireSession_calls access true "bridge_stopping" { c with currentTick := serverTick } w before
      refine ⟨w', made, ?_, ?_⟩
      · simp only [step, close, hrun]
      · simp only [step, close, hrun]
        exact .released (by simp) hnone hreleased
  | telemetry senderId telemetry serverTick =>
      refine ⟨w, [], by rw [List.append_nil]; rfl, .kept ?_ (.inl rfl)⟩
      show (acceptClientTelemetry config senderId telemetry serverTick c).session = c.session
      unfold acceptClientTelemetry
      split
      · rfl
      · split <;> rfl

end

/-! ## What is left behind -/

section

variable {σ : Type} (platform : Platform) (access : Access σ) (config : Config)

/-- What the observer is under. -/
def State.control (s : State (σ × Calls)) : Control := s.world.2.control

/-- The calls of a step. -/
def made (s : State (σ × Calls)) (i : Input) : Calls :=
  (step platform access.recorded config s i).2.world.2.drop s.world.2.length

/-- After the step the observer is free if there is no session; an `ATTACH` or
`UPDATE` that it refuses leaves the session and what the observer is under. -/
def LeavesNoControl (s : State (σ × Calls)) (i : Input) : Prop :=
  let (answer, s') := step platform access.recorded config s i
  (s'.channel.session = none → s'.control = .free) ∧
    ∀ request serverTick type reply, i = .request request serverTick →
      stringField platform request "type" = some type → type ∈ modeTypes →
      answer = some (.refused reply) →
        s'.channel.session = s.channel.session ∧ s'.control = s.control

/-- A directive that cannot be sent after a call took the observer finds it under
what that call set already, and a `detach` that fails finds it free. -/
def Undisturbed (s : State (σ × Calls)) (i : Input) : Prop :=
  (∀ take : Call, take.takes = true →
      made platform access config s i = [(take, true), (.sendDirective, false)] →
        take.sets = some s.control) ∧
    ((.detach, false) ∈ made platform access config s i → s.control = .free)

end

section

variable {σ : Type} {platform : Platform} {access : Access σ} {config : Config}

theorem control_append (calls : Calls) (call : Call × Bool) :
    Calls.control (calls ++ [call]) = setControl calls.control call := by
  rw [Calls.control, List.foldl_append]
  rfl

/-- Calls that set nothing. -/
theorem control_append_of_sets {calls rest : Calls}
    (h : ∀ call ∈ rest, call.2 = true → call.1.sets = none) :
    Calls.control (calls ++ rest) = calls.control := by
  induction rest generalizing calls with
  | nil => rw [List.append_nil]
  | cons call rest ih =>
      rw [← List.singleton_append, ← List.append_assoc,
        ih fun call hcall => h call (List.mem_cons_of_mem _ hcall), control_append, setControl]
      split
      · next hanswered => rw [h call List.mem_cons_self hanswered, Option.getD_none]
      · rfl

theorem takes_sets {take : Call} (h : take.takes = true) :
    ∃ control, take.sets = some control ∧ control ≠ .free := by
  cases take with
  | attachToTarget targetId => exact ⟨_, rfl, by simp⟩
  | holdFixed pose => exact ⟨_, rfl, by simp⟩
  | sendDirective => cases h
  | detach => cases h

/-- What a call does to what the observer is under after some that set nothing. -/
theorem control_released {calls before : Calls} {answered : Bool}
    (h : ∀ call ∈ before, call.1 ≠ Call.detach ∧ (call.2 = true → call.1.sets = none)) :
    Calls.control (calls ++ (before ++ [(.detach, answered)])) =
      if answered then .free else calls.control := by
  rw [← List.append_assoc, control_append, setControl,
    control_append_of_sets fun call hcall => (h call hcall).2]
  rfl

variable (platform access config) in
/-- **A step** leaves no control behind if and only if it is undisturbed. -/
theorem leavesNoControl_iff {s : State (σ × Calls)}
    (hfree : s.channel.session = none → s.control = .free) (i : Input) :
    LeavesNoControl platform access config s i ↔ Undisturbed platform access config s i := by
  obtain ⟨w', calls, hworld, heffect⟩ := step_calls platform access config s i
  have hmade : made platform access config s i = calls := by
    rw [made, hworld, List.drop_left']
    rfl
  have hcontrol : (step platform access.recorded config s i).2.control =
      Calls.control (s.world.2 ++ calls) := by
    rw [State.control, hworld]
  rw [LeavesNoControl, Undisturbed, hmade]
  generalize step platform access.recorded config s i = result at hcontrol heffect
  obtain ⟨answer, s'⟩ := result
  simp only at hcontrol heffect ⊢
  rw [hcontrol]
  cases heffect with
  | kept hsession hkept =>
      have hsame : Calls.control (s.world.2 ++ calls) = s.control := by
        refine control_append_of_sets fun call hcall hanswered => ?_
        rcases hkept with rfl | ⟨take, -, rfl⟩
        · cases hcall
        · rw [List.mem_singleton.mp hcall] at hanswered
          cases hanswered
      rw [hsame, hsession]
      refine iff_of_true ⟨hfree, fun _ _ _ _ _ _ _ _ => ⟨rfl, rfl⟩⟩ ⟨?_, fun hdetach => ?_⟩
      · rintro take - heq
        rcases hkept with rfl | ⟨take, -, rfl⟩ <;> cases heq
      · rcases hkept with rfl | ⟨take, htake, rfl⟩
        · cases hdetach
        · obtain rfl := (Prod.mk.inj (List.mem_singleton.mp hdetach)).1
          cases htake
  | @lost request serverTick type reply take htype hmem hsession htake =>
      obtain ⟨control, hsets, -⟩ := takes_sets htake
      have htaken : Calls.control (s.world.2 ++ [(take, true), (.sendDirective, false)]) = control := by
        rw [← List.singleton_append, ← List.append_assoc, control_append, control_append]
        simp [setControl, hsets]
      rw [htaken, hsession]
      constructor
      · rintro ⟨-, hleft⟩
        obtain ⟨-, rfl⟩ := hleft request serverTick type reply rfl htype hmem rfl
        refine ⟨fun take' _ heq => ?_, by simp [show take ≠ .detach by rintro rfl; cases htake]⟩
        rw [← (Prod.mk.inj (List.cons.inj heq).1).1, hsets]
      · rintro ⟨hsame, -⟩
        obtain rfl := Option.some.inj (hsets.symm.trans (hsame take htake rfl))
        exact ⟨hfree, fun _ _ _ _ _ _ _ _ => ⟨rfl, rfl⟩⟩
  | leased hanswer hsession hleased =>
      refine iff_of_true ⟨fun hnone => ?_, fun _ _ _ reply _ _ _ heq => absurd heq (hanswer reply)⟩
        ⟨fun take _ heq => ?_, fun hdetach => ?_⟩
      · rw [hnone] at hsession
        cases hsession
      · subst heq
        rcases hleased with ⟨take', heq⟩ | ⟨hlength, -⟩
        · cases heq
        · simp at hlength
      · rcases hleased with ⟨take, rfl⟩ | ⟨-, hnot⟩
        · simp at hdetach
        · exact absurd hdetach hnot
  | released hanswer hsession hreleased =>
      obtain ⟨before, answered, rfl, hbefore⟩ := hreleased
      rw [control_released hbefore, hsession]
      have hlost : ∀ take : Call, before ++ [(Call.detach, answered)] ≠
          [(take, true), (.sendDirective, false)] := by
        intro take heq
        have hlast := congrArg List.getLast? heq
        simp at hlast
      have hfailed : (Call.detach, false) ∈ before ++ [(Call.detach, answered)] ↔
          answered = false := by
        rw [List.mem_append, List.mem_singleton, Prod.mk.injEq]
        constructor
        · rintro (hmem | ⟨-, rfl⟩)
          · exact absurd rfl (hbefore _ hmem).1
          · rfl
        · rintro rfl
          exact .inr ⟨rfl, rfl⟩
      rw [hfailed]
      constructor
      · rintro ⟨hleft, -⟩
        refine ⟨fun take _ heq => absurd heq (hlost take), ?_⟩
        rintro rfl
        exact hleft rfl
      · rintro ⟨-, hright⟩
        refine ⟨fun _ => ?_, fun _ _ _ reply _ _ _ heq => absurd heq (hanswer reply)⟩
        cases answered with
        | true => rfl
        | false => exact hright rfl

/-- **A refused request leaves no control behind**, all along a run, if and only if
no step of it is disturbed; the observer of such a run is free where no session
is active. -/
theorem leaves_no_control (platform : Platform) (access : Access σ) (config : Config) (w : σ)
    (log : List Entry) (s : State (σ × Calls)) :
    let step := step platform access.recorded config
    (Run step (fun _ => LeavesNoControl platform access config) ⟨Channel.new, (w, [])⟩ log s ↔
      Run step (fun _ => Undisturbed platform access config) ⟨Channel.new, (w, [])⟩ log s) ∧
    (Run step (fun _ => Undisturbed platform access config) ⟨Channel.new, (w, [])⟩ log s →
      s.channel.session = none → s.control = .free) := by
  intro step
  have hfree : ∀ {log : List Entry} {s : State (σ × Calls)},
      Run step (fun _ => LeavesNoControl platform access config) ⟨Channel.new, (w, [])⟩ log s →
      s.channel.session = none → s.control = .free := by
    intro log s h
    cases h with
    | start => exact fun _ => rfl
    | next i _ hok => exact hok.1
  have hundisturbed : ∀ {log : List Entry} {s : State (σ × Calls)},
      Run step (fun _ => Undisturbed platform access config) ⟨Channel.new, (w, [])⟩ log s →
      Run step (fun _ => LeavesNoControl platform access config) ⟨Channel.new, (w, [])⟩ log s := by
    intro log s h
    induction h with
    | start => exact .start
    | next i _ hok ih =>
        exact ih.next i ((leavesNoControl_iff platform access config (hfree ih) i).mpr hok)
  refine ⟨⟨fun h => ?_, hundisturbed⟩, fun h => hfree (hundisturbed h)⟩
  induction h with
  | start => exact .start
  | next i hrun hok ih =>
      exact ih.next i ((leavesNoControl_iff platform access config (hfree hrun) i).mp hok)

end

/-! ## A client without the camera channel -/

/-- The observer is there, but its client takes no directives. -/
def deafAccess : Access Nat :=
  { countingAccess with
    sendDirective _ := fun n =>
      (.error (.access "client_adapter_unavailable"
        "observer client does not expose the MineBot Camera directive channel" true), n + 1) }

/-- The request is refused, and hundreds of ticks later the observer is still
attached to its target, under no lease. -/
theorem refused_attach_keeps_target :
    let run := exec (step plainPlatform deafAccess.recorded plainConfig) ⟨Channel.new, (0, [])⟩
      [.request (leaseRequest "ATTACH" "a" 1) 0, .tick 5, .tick 100, .tick 500]
    (∃ input reply rest, run.1 = (input, some (.refused reply)) :: rest) ∧
      run.2.channel.session = none ∧ run.2.control = .target "t" := by
  refine ⟨⟨_, _, _, rfl⟩, by decide, by decide⟩

end ObserverControl

end MineBot
