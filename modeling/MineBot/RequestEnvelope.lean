import MineBot.EventSequence

/-!
# The request envelope

The request builders of `JavaBodyProtocol`. Each requires its request
type's capability, puts its arguments under their names and hands them to
`_request`, which merges them over the envelope. Five builders take a
dictionary of the caller's own: the caller's bot name and action id are
merged over it, the envelope under it. So a parameter named like a field
of the envelope replaces that field (`request_envelope_iff`).

`mutation_verdict` registers no request: it answers a proposal.
-/

namespace MineBot

/-- `MAX_FIND_BLOCK_IDS`. -/
def maxFindBlockIds : Nat := 64

/-- What a builder raises: the `CapabilityGap`s and the `ValueError`s, one
constructor a message. -/
inductive BuildError where
  | capability (gap : CapabilityGap)
  /-- FIND_BLOCKS requires 1 to 64 block ids -/
  | blockIds
  /-- governed NAVIGATE requires a positive break_budget -/
  | breakBudget
  /-- governed NAVIGATE requires break_context -/
  | breakContext
  /-- ... no longer accepts target_spec -/
  | targetSpec (requestType : String)
  /-- ... requires target_uuid -/
  | targetUuid (requestType : String)
  /-- ... target_uuid must be canonical -/
  | targetUuidForm (requestType : String)

/-! ## Bodies -/

/-- The fields that are given: `None` leaves a field out. -/
def givenFields (fields : List (String × Option Json)) : JsonObject :=
  fields.filterMap fun (key, value) => value.map (key, ·)

/-- `dict(params)`. -/
def copyDict (params : JsonObject) : JsonObject := Dict.update [] params

/-- `{**params, "bot_name": bot_name, "action_id": action_id}`. -/
def withCaller (params : JsonObject) (botName actionId : String) : JsonObject :=
  (params.set "bot_name" (.str botName)).set "action_id" (.str actionId)

/-- A list of integers. -/
def Json.ofInts (ns : List Int) : Json := .arr (ns.map .int)

namespace JavaBodyProtocol

/-- What the builders share: the capability, then the body, then the
request. -/
def build (p : JavaBodyProtocol) (requestType : String) (body : Except BuildError JsonObject) :
    Except BuildError (JsonObject × JavaBodyProtocol) :=
  match p.requireCapability requestType with
  | .error gap => .error (.capability gap)
  | .ok () => match body with
    | .error e => .error e
    | .ok body => .ok (p.request requestType body)

/-- A builder whose body is made of the fields given. -/
def buildFields (p : JavaBodyProtocol) (requestType : String)
    (fields : List (String × Option Json)) : Except BuildError (JsonObject × JavaBodyProtocol) :=
  p.build requestType (.ok (givenFields fields))

/-- A builder that merges the caller over the parameters. -/
def buildParams (p : JavaBodyProtocol) (requestType botName actionId : String)
    (params : JsonObject) : Except BuildError (JsonObject × JavaBodyProtocol) :=
  p.build requestType (.ok (withCaller (copyDict params) botName actionId))

/-! ## Builders -/

section Builders

variable (p : JavaBodyProtocol)

def findBlocks (botName : String) (blockIds : List String) (radius : Int)
    (verticalRadius limit : Option Int) (cursor : Option String) :
    Except BuildError (JsonObject × JavaBodyProtocol) :=
  p.build "FIND_BLOCKS"
    (if 1 ≤ blockIds.length ∧ blockIds.length ≤ maxFindBlockIds then
      .ok (givenFields [("bot_name", some (.str botName)),
        ("block_ids", some (.arr (blockIds.map .str))), ("radius", some (.int radius)),
        ("vertical_radius", verticalRadius.map .int), ("limit", limit.map .int),
        ("cursor", cursor.map .str)])
    else .error .blockIds)

/-- The optional arguments of `navigate`. -/
structure NavigateOptions where
  timeoutTicks : Option Int
  finalReachDistance : Option Rat
  survivalRecovery : Bool
  gridRadius : Option Int
  maxExpand : Option Int
  allowDiagonal : Option Bool
  allowAscend : Option Bool
  allowDescend : Option Bool
  allowSwim : Option Bool
  maxFallDepth : Option Int
  maxWaterDropDepth : Option Int
  allowBreak : Bool
  breakBudget : Option Int
  breakContext : Option String
  deniedMutations : Option (List (List Int))

/-- `if denied_mutations`: an empty list is left out. -/
def deniedField (denied : Option (List (List Int))) : Option Json :=
  match denied with
  | some (pos :: more) => some (.arr ((pos :: more).map .ofInts))
  | _ => none

/-- The fields `allow_break` adds. -/
def breakFields (o : NavigateOptions) : Except BuildError (List (String × Option Json)) :=
  if o.allowBreak then
    match o.breakBudget with
    | none => .error .breakBudget
    | some budget =>
        if budget ≤ 0 then .error .breakBudget
        else match o.breakContext with
          | none => .error .breakContext
          | some context =>
              if context = "" then .error .breakContext
              else .ok [("allow_break", some (.bool true)), ("break_budget", some (.int budget)),
                ("break_context", some (.str context)),
                ("denied_mutations", deniedField o.deniedMutations)]
  else .ok []

def navigateFields (botName actionId : String) (goal : JsonObject) (o : NavigateOptions) :
    List (String × Option Json) :=
  [("bot_name", some (.str botName)), ("action_id", some (.str actionId)),
    ("goal", some (.obj (copyDict goal))),
    ("timeout_ticks", o.timeoutTicks.map .int),
    ("final_reach_distance", o.finalReachDistance.map .float),
    ("survival_recovery", if o.survivalRecovery then some (.bool true) else none),
    ("grid_radius", o.gridRadius.map .int), ("max_expand", o.maxExpand.map .int),
    ("allow_diagonal", o.allowDiagonal.map .bool), ("allow_ascend", o.allowAscend.map .bool),
    ("allow_descend", o.allowDescend.map .bool), ("allow_swim", o.allowSwim.map .bool),
    ("max_fall_depth", o.maxFallDepth.map .int),
    ("max_water_drop_depth", o.maxWaterDropDepth.map .int)]

def navigate (botName actionId : String) (goal : JsonObject) (o : NavigateOptions) :
    Except BuildError (JsonObject × JavaBodyProtocol) :=
  p.build "NAVIGATE" ((breakFields o).map fun more =>
    givenFields (navigateFields botName actionId goal o ++ more))

section Entities

-- `str(UUID(value))`; `none` is its `ValueError`
variable (canonicalUuid : String → Option String)

/-- `_canonical_target_uuid`. -/
def canonicalTargetUuid (requestType : String) (value : Option Json) : Except BuildError String :=
  match value with
  | some (.str text) =>
      if text.toList.all isPySpace then .error (.targetUuid requestType)
      else match canonicalUuid text with
        | some uuid => .ok uuid
        | none => .error (.targetUuidForm requestType)
  | _ => .error (.targetUuid requestType)

/-- `follow_entity` and `engage_entity`. -/
def buildEntity (requestType botName actionId : String) (params : JsonObject) :
    Except BuildError (JsonObject × JavaBodyProtocol) :=
  let normalized := copyDict params
  p.build requestType
    (if (normalized.get? "target_spec").isSome then .error (.targetSpec requestType)
    else (canonicalTargetUuid canonicalUuid requestType (normalized.get? "target_uuid")).map
      fun uuid => withCaller (normalized.set "target_uuid" (.str uuid)) botName actionId)

def followEntity := buildEntity p canonicalUuid "FOLLOW_ENTITY"

def engageEntity := buildEntity p canonicalUuid "ENGAGE_ENTITY"

end Entities

def cancelAction (actionId : String) :=
  p.buildFields "CANCEL_ACTION" [("action_id", some (.str actionId))]

def queryAction (actionId : String) :=
  p.buildFields "QUERY_ACTION" [("action_id", some (.str actionId))]

def bodyState (botName : String) :=
  p.buildFields "BODY_STATE" [("bot_name", some (.str botName))]

def eventHead (botName proposedEpoch : String) :=
  p.buildFields "EVENT_HEAD"
    [("bot_name", some (.str botName)), ("proposed_epoch", some (.str proposedEpoch))]

def worldIdentity := p.buildFields "WORLD_IDENTITY" []

def chatEvents (botName : String) (afterSeq : Int) :=
  p.buildFields "CHAT_EVENTS"
    [("bot_name", some (.str botName)), ("after_seq", some (.int (max 0 afterSeq)))]

def say (botName text : String) :=
  p.buildFields "SAY" [("bot_name", some (.str botName)), ("text", some (.str text))]

def spawn (botName : String) (pos : Option (Int × Int × Int)) (yaw pitch : Option Rat)
    (dimension gamemode : Option String) (emitRespawned : Bool) :=
  p.buildFields "SPAWN"
    [("bot_name", some (.str botName)), ("emit_respawned", some (.bool emitRespawned)),
      ("pos", pos.map fun (x, y, z) => .ofInts [x, y, z]), ("yaw", yaw.map .float),
      ("pitch", pitch.map .float), ("dimension", dimension.map .str),
      ("gamemode", gamemode.map .str)]

def despawn (botName : String) :=
  p.buildFields "DESPAWN" [("bot_name", some (.str botName))]

def interrupt (botName : String) (reason : Option String) :=
  p.buildFields "INTERRUPT" [("bot_name", some (.str botName)), ("reason", reason.map .str)]

def inventory (botName : String) (start limit : Option Int) :=
  p.buildFields "INVENTORY"
    [("bot_name", some (.str botName)), ("start", start.map .int), ("limit", limit.map .int)]

def containerRead (botName : String) (pos : List Int) (start limit : Option Int) :=
  p.buildFields "CONTAINER_READ"
    [("bot_name", some (.str botName)), ("pos", some (.ofInts pos)), ("start", start.map .int),
      ("limit", limit.map .int)]

def recipeRead (botName item : String) (recipeType : Option String) :=
  p.buildFields "RECIPE_READ"
    [("bot_name", some (.str botName)), ("item", some (.str item)),
      ("recipe_type", recipeType.map .str)]

/-- `world_read` and `entity_read`. -/
def buildRead (requestType botName scope : String) (params : JsonObject) :=
  p.buildFields requestType
    [("bot_name", some (.str botName)), ("scope", some (.str scope)),
      ("params", some (.obj (copyDict params)))]

def worldRead := p.buildRead "WORLD_READ"

def entityRead := p.buildRead "ENTITY_READ"

def collectBlock (botName actionId : String) (target : Int × Int × Int)
    (expectedBlockId : String) (expectedItemIds : List String) (excavationBudget : Int)
    (timeoutTicks : Option Int) :=
  p.buildFields "COLLECT_BLOCK"
    [("bot_name", some (.str botName)), ("action_id", some (.str actionId)),
      ("contract_version", some (.int 2)),
      ("target", some (.ofInts [target.1, target.2.1, target.2.2])),
      ("expected_block_id", some (.str expectedBlockId)),
      ("expected_item_ids", some (.arr (expectedItemIds.map .str))),
      ("excavation_budget", some (.int excavationBudget)),
      ("timeout_ticks", timeoutTicks.map .int)]

def digDown (botName actionId : String) (targetY : Int)
    (maxSteps maxClearFall timeoutTicks : Option Int) :=
  p.buildFields "DIG_DOWN"
    [("bot_name", some (.str botName)), ("action_id", some (.str actionId)),
      ("target_y", some (.int targetY)), ("max_steps", maxSteps.map .int),
      ("max_clear_fall", maxClearFall.map .int), ("timeout_ticks", timeoutTicks.map .int)]

def ascend (botName actionId : String) (maxMutations timeoutTicks : Option Int) :=
  p.buildFields "ASCEND"
    [("bot_name", some (.str botName)), ("action_id", some (.str actionId)),
      ("max_mutations", maxMutations.map .int), ("timeout_ticks", timeoutTicks.map .int)]

def playerAction (botName actionId action : String) (params : JsonObject) :=
  p.buildFields "PLAYER_ACTION"
    [("bot_name", some (.str botName)), ("action_id", some (.str actionId)),
      ("action", some (.str action)), ("params", some (.obj (copyDict params)))]

def containerTransfer := p.buildParams "CONTAINER_TRANSFER"

def craftItem := p.buildParams "CRAFT_ITEM"

def furnaceTransfer := p.buildParams "FURNACE_TRANSFER"

end Builders

end JavaBodyProtocol

/-! ## Calls of builders -/

/-- A call of a request builder. -/
inductive RequestCall where
  | hello (subscribeEvents : Bool)
  | findBlocks (botName : String) (blockIds : List String) (radius : Int)
      (verticalRadius limit : Option Int) (cursor : Option String)
  | navigate (botName actionId : String) (goal : JsonObject)
      (options : JavaBodyProtocol.NavigateOptions)
  | followEntity (botName actionId : String) (params : JsonObject)
  | setSurvivalOwner (botName : String) (enabled : Bool)
  | cancelAction (actionId : String)
  | queryAction (actionId : String)
  | resumeEvents (botName : String) (afterSeq : Int)
  | bodyState (botName : String)
  | eventHead (botName proposedEpoch : String)
  | worldIdentity
  | chatEvents (botName : String) (afterSeq : Int)
  | say (botName text : String)
  | spawn (botName : String) (pos : Option (Int × Int × Int)) (yaw pitch : Option Rat)
      (dimension gamemode : Option String) (emitRespawned : Bool)
  | despawn (botName : String)
  | interrupt (botName : String) (reason : Option String)
  | inventory (botName : String) (start limit : Option Int)
  | containerRead (botName : String) (pos : List Int) (start limit : Option Int)
  | recipeRead (botName item : String) (recipeType : Option String)
  | worldRead (botName scope : String) (params : JsonObject)
  | entityRead (botName scope : String) (params : JsonObject)
  | collectBlock (botName actionId : String) (target : Int × Int × Int)
      (expectedBlockId : String) (expectedItemIds : List String) (excavationBudget : Int)
      (timeoutTicks : Option Int)
  | digDown (botName actionId : String) (targetY : Int)
      (maxSteps maxClearFall timeoutTicks : Option Int)
  | ascend (botName actionId : String) (maxMutations timeoutTicks : Option Int)
  | engageEntity (botName actionId : String) (params : JsonObject)
  | playerAction (botName actionId action : String) (params : JsonObject)
  | containerTransfer (botName actionId : String) (params : JsonObject)
  | craftItem (botName actionId : String) (params : JsonObject)
  | furnaceTransfer (botName actionId : String) (params : JsonObject)

namespace RequestCall

open JavaBodyProtocol

def run (canonicalUuid : String → Option String) (p : JavaBodyProtocol) :
    RequestCall → Except BuildError (JsonObject × JavaBodyProtocol)
  | hello subscribeEvents => .ok (p.hello subscribeEvents)
  | findBlocks botName blockIds radius verticalRadius limit cursor =>
      p.findBlocks botName blockIds radius verticalRadius limit cursor
  | navigate botName actionId goal options => p.navigate botName actionId goal options
  | followEntity botName actionId params => p.followEntity canonicalUuid botName actionId params
  | setSurvivalOwner botName enabled =>
      (p.setSurvivalOwner botName enabled).mapError .capability
  | cancelAction actionId => p.cancelAction actionId
  | queryAction actionId => p.queryAction actionId
  | resumeEvents botName afterSeq => (p.resumeEvents botName afterSeq).mapError .capability
  | bodyState botName => p.bodyState botName
  | eventHead botName proposedEpoch => p.eventHead botName proposedEpoch
  | worldIdentity => p.worldIdentity
  | chatEvents botName afterSeq => p.chatEvents botName afterSeq
  | say botName text => p.say botName text
  | spawn botName pos yaw pitch dimension gamemode emitRespawned =>
      p.spawn botName pos yaw pitch dimension gamemode emitRespawned
  | despawn botName => p.despawn botName
  | interrupt botName reason => p.interrupt botName reason
  | inventory botName start limit => p.inventory botName start limit
  | containerRead botName pos start limit => p.containerRead botName pos start limit
  | recipeRead botName item recipeType => p.recipeRead botName item recipeType
  | worldRead botName scope params => p.worldRead botName scope params
  | entityRead botName scope params => p.entityRead botName scope params
  | collectBlock botName actionId target expectedBlockId expectedItemIds excavationBudget
      timeoutTicks =>
      p.collectBlock botName actionId target expectedBlockId expectedItemIds excavationBudget
        timeoutTicks
  | digDown botName actionId targetY maxSteps maxClearFall timeoutTicks =>
      p.digDown botName actionId targetY maxSteps maxClearFall timeoutTicks
  | ascend botName actionId maxMutations timeoutTicks =>
      p.ascend botName actionId maxMutations timeoutTicks
  | engageEntity botName actionId params => p.engageEntity canonicalUuid botName actionId params
  | playerAction botName actionId action params => p.playerAction botName actionId action params
  | containerTransfer botName actionId params => p.containerTransfer botName actionId params
  | craftItem botName actionId params => p.craftItem botName actionId params
  | furnaceTransfer botName actionId params => p.furnaceTransfer botName actionId params

/-- The builder's own request type. -/
def requestType : RequestCall → String
  | hello .. => "HELLO"
  | findBlocks .. => "FIND_BLOCKS"
  | navigate .. => "NAVIGATE"
  | followEntity .. => "FOLLOW_ENTITY"
  | setSurvivalOwner .. => "SET_SURVIVAL_OWNER"
  | cancelAction .. => "CANCEL_ACTION"
  | queryAction .. => "QUERY_ACTION"
  | resumeEvents .. => "RESUME_EVENTS"
  | bodyState .. => "BODY_STATE"
  | eventHead .. => "EVENT_HEAD"
  | worldIdentity => "WORLD_IDENTITY"
  | chatEvents .. => "CHAT_EVENTS"
  | say .. => "SAY"
  | spawn .. => "SPAWN"
  | despawn .. => "DESPAWN"
  | interrupt .. => "INTERRUPT"
  | inventory .. => "INVENTORY"
  | containerRead .. => "CONTAINER_READ"
  | recipeRead .. => "RECIPE_READ"
  | worldRead .. => "WORLD_READ"
  | entityRead .. => "ENTITY_READ"
  | collectBlock .. => "COLLECT_BLOCK"
  | digDown .. => "DIG_DOWN"
  | ascend .. => "ASCEND"
  | engageEntity .. => "ENGAGE_ENTITY"
  | playerAction .. => "PLAYER_ACTION"
  | containerTransfer .. => "CONTAINER_TRANSFER"
  | craftItem .. => "CRAFT_ITEM"
  | furnaceTransfer .. => "FURNACE_TRANSFER"

/-- The caller's bot name, where the builder takes one. -/
def botName? : RequestCall → Option String
  | findBlocks botName .. | navigate botName .. | followEntity botName ..
  | setSurvivalOwner botName _ | resumeEvents botName _ | bodyState botName
  | eventHead botName _ | chatEvents botName _ | say botName _ | spawn botName ..
  | despawn botName | interrupt botName _ | inventory botName .. | containerRead botName ..
  | recipeRead botName .. | worldRead botName .. | entityRead botName ..
  | collectBlock botName .. | digDown botName .. | ascend botName .. | engageEntity botName ..
  | playerAction botName .. | containerTransfer botName .. | craftItem botName ..
  | furnaceTransfer botName .. => some botName
  | hello _ | cancelAction _ | queryAction _ | worldIdentity => none

/-- The caller's action id, where the builder takes one. -/
def actionId? : RequestCall → Option String
  | navigate _ actionId .. | followEntity _ actionId _ | cancelAction actionId
  | queryAction actionId | collectBlock _ actionId .. | digDown _ actionId ..
  | ascend _ actionId .. | engageEntity _ actionId _ | playerAction _ actionId ..
  | containerTransfer _ actionId _ | craftItem _ actionId _
  | furnaceTransfer _ actionId _ => some actionId
  | _ => none

/-- The parameters that are merged into the message itself. -/
def params : RequestCall → JsonObject
  | followEntity _ _ params | engageEntity _ _ params | containerTransfer _ _ params
  | craftItem _ _ params | furnaceTransfer _ _ params => copyDict params
  | _ => []

end RequestCall

/-! ## What a builder sends -/

/-- The envelope `_request` starts from. -/
def envelopeFields (requestType requestId : String) : JsonObject :=
  [("channel", .str channelName), ("protocol", .str protocolName), ("type", .str requestType),
    ("request_id", .str requestId)]

def envelopeKeys : List String := ["channel", "protocol", "type", "request_id"]

namespace JavaBodyProtocol

/-- The id the next request is registered under. -/
def nextRequestId (p : JavaBodyProtocol) : String := s!"r-{p.requestCounter + 1}"

theorem request_fst (p : JavaBodyProtocol) (requestType : String) (body : JsonObject) :
    (p.request requestType body).1
      = (envelopeFields requestType p.nextRequestId).update body := rfl

theorem build_spec {p : JavaBodyProtocol} {requestType : String}
    {body : Except BuildError JsonObject} {result : JsonObject × JavaBodyProtocol}
    (h : p.build requestType body = .ok result) :
    ∃ fields, body = .ok fields ∧ result = p.request requestType fields := by
  unfold build at h
  split at h
  · cases h
  · split at h
    · cases h
    · next fields => exact ⟨fields, rfl, (Except.ok.inj h).symm⟩

end JavaBodyProtocol

theorem nodup_copyDict (params : JsonObject) : ((copyDict params).map Prod.fst).Nodup :=
  Dict.nodup_update (show (([] : JsonObject).map Prod.fst).Nodup from List.nodup_nil) params

theorem keys_givenFields (fields : List (String × Option Json)) :
    ((givenFields fields).map Prod.fst).Sublist (fields.map Prod.fst) := by
  induction fields with
  | nil => exact .slnil
  | cons field fields ih =>
      obtain ⟨key, value⟩ := field
      cases value with
      | none => exact ih.cons key
      | some value => exact ih.cons_cons key

/-- What matters of the body a builder hands to `_request`. -/
structure BodySpec (c : RequestCall) (body : JsonObject) : Prop where
  nodup : (body.map Prod.fst).Nodup
  params : ∀ key ∈ envelopeKeys, body.get? key = c.params.get? key
  botName : ∀ name, c.botName? = some name → body.get? "bot_name" = some (.str name)
  actionId : ∀ id, c.actionId? = some id → body.get? "action_id" = some (.str id)

section Bodies

variable {c : RequestCall}

/-- Named fields never meet the envelope's. -/
theorem bodySpec_givenFields {fields : List (String × Option Json)} (hparams : c.params = [])
    (hnodup : (fields.map Prod.fst).Nodup) (hapart : ∀ key ∈ envelopeKeys, key ∉ fields.map Prod.fst)
    (hbot : ∀ name, c.botName? = some name → (givenFields fields).get? "bot_name" = some (.str name))
    (haction : ∀ id, c.actionId? = some id → (givenFields fields).get? "action_id" = some (.str id)) :
    BodySpec c (givenFields fields) where
  nodup := hnodup.sublist (keys_givenFields fields)
  params key hkey := by
    rw [hparams, Dict.get?_eq_none fun hmem => hapart key hkey ((keys_givenFields fields).subset hmem)]
    rfl
  botName := hbot
  actionId := haction

/-- The caller's name and id go over the parameters, and only they. -/
theorem bodySpec_withCaller {d : JsonObject} {botName actionId : String}
    (hnodup : (d.map Prod.fst).Nodup) (hparams : ∀ key ∈ envelopeKeys, d.get? key = c.params.get? key)
    (hbot : c.botName? = some botName) (haction : c.actionId? = some actionId) :
    BodySpec c (withCaller d botName actionId) where
  nodup := Dict.nodup_set (Dict.nodup_set hnodup _ _) _ _
  params key hkey := by
    have hne : key ≠ "action_id" ∧ key ≠ "bot_name" := by
      revert key
      decide
    rw [withCaller, Dict.get?_set_of_ne _ hne.1, Dict.get?_set_of_ne _ hne.2, hparams key hkey]
  botName name hname := by
    obtain rfl := Option.some.inj (hbot.symm.trans hname)
    rw [withCaller, Dict.get?_set_of_ne _ (by decide), Dict.get?_set_self]
  actionId id hid := by
    obtain rfl := Option.some.inj (haction.symm.trans hid)
    rw [withCaller, Dict.get?_set_self]

theorem bodySpec_params {requestType botName actionId : String} {params : JsonObject}
    {p : JavaBodyProtocol} {result : JsonObject × JavaBodyProtocol}
    (h : p.buildParams requestType botName actionId params = .ok result)
    (hparams : c.params = copyDict params) (hbot : c.botName? = some botName)
    (haction : c.actionId? = some actionId) :
    ∃ body, BodySpec c body ∧ result = p.request requestType body := by
  obtain ⟨body, hbody, hresult⟩ := JavaBodyProtocol.build_spec h
  obtain rfl := Except.ok.inj hbody
  exact ⟨_, bodySpec_withCaller (nodup_copyDict params) (fun _ _ => by rw [hparams]) hbot haction,
    hresult⟩

theorem bodySpec_entity {canonicalUuid : String → Option String}
    {requestType botName actionId : String} {params : JsonObject}
    {p : JavaBodyProtocol} {result : JsonObject × JavaBodyProtocol}
    (h : p.buildEntity canonicalUuid requestType botName actionId params = .ok result)
    (hparams : c.params = copyDict params) (hbot : c.botName? = some botName)
    (haction : c.actionId? = some actionId) :
    ∃ body, BodySpec c body ∧ result = p.request requestType body := by
  obtain ⟨body, hbody, hresult⟩ := JavaBodyProtocol.build_spec h
  split at hbody
  · cases hbody
  cases huuid : JavaBodyProtocol.canonicalTargetUuid canonicalUuid requestType
      ((copyDict params).get? "target_uuid") with
  | error e =>
      rw [huuid] at hbody
      cases hbody
  | ok uuid =>
      rw [huuid] at hbody
      obtain rfl := Except.ok.inj hbody
      refine ⟨_, bodySpec_withCaller (Dict.nodup_set (nodup_copyDict params) _ _) ?_ hbot haction,
        hresult⟩
      intro key hkey
      have hne : key ≠ "target_uuid" := by
        revert key
        decide
      rw [Dict.get?_set_of_ne _ hne, hparams]

theorem bodySpec_fields {requestType : String} {fields : List (String × Option Json)}
    {p : JavaBodyProtocol} {result : JsonObject × JavaBodyProtocol}
    (h : p.buildFields requestType fields = .ok result) (hspec : BodySpec c (givenFields fields)) :
    ∃ body, BodySpec c body ∧ result = p.request requestType body := by
  obtain ⟨body, hbody, hresult⟩ := JavaBodyProtocol.build_spec h
  obtain rfl := Except.ok.inj hbody
  exact ⟨_, hspec, hresult⟩

end Bodies

theorem breakFields_names {o : JavaBodyProtocol.NavigateOptions}
    {more : List (String × Option Json)} (h : JavaBodyProtocol.breakFields o = .ok more) :
    more.map Prod.fst = []
      ∨ more.map Prod.fst = ["allow_break", "break_budget", "break_context", "denied_mutations"] := by
  unfold JavaBodyProtocol.breakFields at h
  split at h
  · split at h
    · cases h
    · split at h
      · cases h
      · split at h
        · cases h
        · split at h
          · cases h
          · obtain rfl := Except.ok.inj h
            exact .inr rfl
  · obtain rfl := Except.ok.inj h
    exact .inl rfl

/-- Every builder that does not raise requests its own type, with a body
whose envelope fields are the caller's parameters' own. -/
theorem RequestCall.run_spec {canonicalUuid : String → Option String} {c : RequestCall}
    {p : JavaBodyProtocol} {result : JsonObject × JavaBodyProtocol}
    (h : c.run canonicalUuid p = .ok result) :
    ∃ body, BodySpec c body ∧ result = p.request c.requestType body := by
  cases c with
  | hello subscribeEvents =>
      cases subscribeEvents with
      | true =>
          exact ⟨[], ⟨by decide, fun _ _ => rfl, nofun, nofun⟩, (Except.ok.inj h).symm⟩
      | false =>
          exact ⟨_, ⟨by decide, by decide, nofun, nofun⟩, (Except.ok.inj h).symm⟩
  | findBlocks botName blockIds radius verticalRadius limit cursor =>
      obtain ⟨body, hbody, hresult⟩ := JavaBodyProtocol.build_spec h
      split at hbody
      · obtain rfl := Except.ok.inj hbody
        refine ⟨_, bodySpec_givenFields rfl (by simp) (by simp [envelopeKeys]) ?_ nofun, hresult⟩
        rintro _ ⟨⟩
        rfl
      · cases hbody
  | navigate botName actionId goal options =>
      obtain ⟨body, hbody, hresult⟩ := JavaBodyProtocol.build_spec h
      cases hmore : JavaBodyProtocol.breakFields options with
      | error e =>
          rw [hmore] at hbody
          cases hbody
      | ok more =>
          rw [hmore] at hbody
          obtain rfl := Except.ok.inj hbody
          have hnames : (JavaBodyProtocol.navigateFields botName actionId goal options ++ more).map
              Prod.fst
                = (JavaBodyProtocol.navigateFields botName actionId goal options).map Prod.fst
                  ++ more.map Prod.fst := List.map_append
          refine ⟨_, bodySpec_givenFields rfl ?_ ?_ ?_ ?_, hresult⟩
          · rw [hnames]
            rcases breakFields_names hmore with hmore | hmore <;>
              simp [hmore, JavaBodyProtocol.navigateFields]
          · rw [hnames]
            rcases breakFields_names hmore with hmore | hmore <;>
              simp [hmore, JavaBodyProtocol.navigateFields, envelopeKeys]
          · rintro _ ⟨⟩
            rfl
          · rintro _ ⟨⟩
            rfl
  | followEntity botName actionId params => exact bodySpec_entity h rfl rfl rfl
  | setSurvivalOwner botName enabled =>
      have heq : (p.setSurvivalOwner botName enabled).mapError BuildError.capability
          = p.buildFields "SET_SURVIVAL_OWNER"
            [("bot_name", some (.str botName)), ("enabled", some (.bool enabled))] := by
        unfold JavaBodyProtocol.setSurvivalOwner JavaBodyProtocol.buildFields JavaBodyProtocol.build
        cases p.requireCapability "SET_SURVIVAL_OWNER" <;> rfl
      refine bodySpec_fields (heq.symm.trans h)
        (bodySpec_givenFields rfl (by simp) (by simp [envelopeKeys]) ?_ nofun)
      rintro _ ⟨⟩
      rfl
  | cancelAction actionId =>
      refine bodySpec_fields h (bodySpec_givenFields rfl (by simp) (by simp [envelopeKeys]) nofun ?_)
      rintro _ ⟨⟩
      rfl
  | queryAction actionId =>
      refine bodySpec_fields h (bodySpec_givenFields rfl (by simp) (by simp [envelopeKeys]) nofun ?_)
      rintro _ ⟨⟩
      rfl
  | resumeEvents botName afterSeq =>
      have heq : (p.resumeEvents botName afterSeq).mapError BuildError.capability
          = p.buildFields "RESUME_EVENTS"
            [("bot_name", some (.str botName)), ("after_seq", some (.int afterSeq))] := by
        unfold JavaBodyProtocol.resumeEvents JavaBodyProtocol.buildFields JavaBodyProtocol.build
        cases p.requireCapability "RESUME_EVENTS" <;> rfl
      refine bodySpec_fields (heq.symm.trans h)
        (bodySpec_givenFields rfl (by simp) (by simp [envelopeKeys]) ?_ nofun)
      rintro _ ⟨⟩
      rfl
  | bodyState botName =>
      refine bodySpec_fields h (bodySpec_givenFields rfl (by simp) (by simp [envelopeKeys]) ?_ nofun)
      rintro _ ⟨⟩
      rfl
  | eventHead botName proposedEpoch =>
      refine bodySpec_fields h (bodySpec_givenFields rfl (by simp) (by simp [envelopeKeys]) ?_ nofun)
      rintro _ ⟨⟩
      rfl
  | worldIdentity =>
      exact bodySpec_fields h (bodySpec_givenFields rfl (by simp) (by simp [envelopeKeys]) nofun nofun)
  | chatEvents botName afterSeq =>
      refine bodySpec_fields h (bodySpec_givenFields rfl (by simp) (by simp [envelopeKeys]) ?_ nofun)
      rintro _ ⟨⟩
      rfl
  | say botName text =>
      refine bodySpec_fields h (bodySpec_givenFields rfl (by simp) (by simp [envelopeKeys]) ?_ nofun)
      rintro _ ⟨⟩
      rfl
  | spawn botName pos yaw pitch dimension gamemode emitRespawned =>
      refine bodySpec_fields h (bodySpec_givenFields rfl (by simp) (by simp [envelopeKeys]) ?_ nofun)
      rintro _ ⟨⟩
      rfl
  | despawn botName =>
      refine bodySpec_fields h (bodySpec_givenFields rfl (by simp) (by simp [envelopeKeys]) ?_ nofun)
      rintro _ ⟨⟩
      rfl
  | interrupt botName reason =>
      refine bodySpec_fields h (bodySpec_givenFields rfl (by simp) (by simp [envelopeKeys]) ?_ nofun)
      rintro _ ⟨⟩
      rfl
  | inventory botName start limit =>
      refine bodySpec_fields h (bodySpec_givenFields rfl (by simp) (by simp [envelopeKeys]) ?_ nofun)
      rintro _ ⟨⟩
      rfl
  | containerRead botName pos start limit =>
      refine bodySpec_fields h (bodySpec_givenFields rfl (by simp) (by simp [envelopeKeys]) ?_ nofun)
      rintro _ ⟨⟩
      rfl
  | recipeRead botName item recipeType =>
      refine bodySpec_fields h (bodySpec_givenFields rfl (by simp) (by simp [envelopeKeys]) ?_ nofun)
      rintro _ ⟨⟩
      rfl
  | worldRead botName scope params =>
      refine bodySpec_fields h (bodySpec_givenFields rfl (by simp) (by simp [envelopeKeys]) ?_ nofun)
      rintro _ ⟨⟩
      rfl
  | entityRead botName scope params =>
      refine bodySpec_fields h (bodySpec_givenFields rfl (by simp) (by simp [envelopeKeys]) ?_ nofun)
      rintro _ ⟨⟩
      rfl
  | collectBlock botName actionId target expectedBlockId expectedItemIds excavationBudget
      timeoutTicks =>
      refine bodySpec_fields h (bodySpec_givenFields rfl (by simp) (by simp [envelopeKeys]) ?_ ?_)
      · rintro _ ⟨⟩
        rfl
      · rintro _ ⟨⟩
        rfl
  | digDown botName actionId targetY maxSteps maxClearFall timeoutTicks =>
      refine bodySpec_fields h (bodySpec_givenFields rfl (by simp) (by simp [envelopeKeys]) ?_ ?_)
      · rintro _ ⟨⟩
        rfl
      · rintro _ ⟨⟩
        rfl
  | ascend botName actionId maxMutations timeoutTicks =>
      refine bodySpec_fields h (bodySpec_givenFields rfl (by simp) (by simp [envelopeKeys]) ?_ ?_)
      · rintro _ ⟨⟩
        rfl
      · rintro _ ⟨⟩
        rfl
  | engageEntity botName actionId params => exact bodySpec_entity h rfl rfl rfl
  | playerAction botName actionId action params =>
      refine bodySpec_fields h (bodySpec_givenFields rfl (by simp) (by simp [envelopeKeys]) ?_ ?_)
      · rintro _ ⟨⟩
        rfl
      · rintro _ ⟨⟩
        rfl
  | containerTransfer botName actionId params => exact bodySpec_params h rfl rfl rfl
  | craftItem botName actionId params => exact bodySpec_params h rfl rfl rfl
  | furnaceTransfer botName actionId params => exact bodySpec_params h rfl rfl rfl

/-! ## Correlation -/

namespace JavaBodyProtocol

/-- The same requests are outstanding. -/
def SameRequests (p p' : JavaBodyProtocol) : Prop :=
  p'.requestCounter = p.requestCounter ∧ p'.pending = p.pending

theorem SameRequests.trans {p p' p'' : JavaBodyProtocol} (h : SameRequests p p')
    (h' : SameRequests p' p'') : SameRequests p p'' :=
  ⟨h'.1.trans h.1, h'.2.trans h.2⟩

theorem sameRequests_sequenceEvent (p : JavaBodyProtocol) (event : BotEvent) :
    SameRequests p (p.sequenceEvent event).2 := by
  unfold sequenceEvent
  dsimp only
  split
  · exact ⟨rfl, rfl⟩
  · exact ⟨rfl, rfl⟩

variable {encodedBytes : JsonObject → Nat}

theorem sameRequests_sequenceReplayed (encodedBytes : JsonObject → Nat) (p : JavaBodyProtocol)
    (events : List Json) :
    SameRequests p (p.sequenceReplayed encodedBytes events).2 := by
  induction events generalizing p with
  | nil => exact ⟨rfl, rfl⟩
  | cons raw events ih =>
      cases raw with
      | obj raw =>
          simp only [sequenceReplayed]
          split
          · exact ⟨rfl, rfl⟩
          · next event _ =>
              have hrest := (sameRequests_sequenceEvent p event).trans (ih (p.sequenceEvent event).2)
              split
              · next heq =>
                  rw [heq] at hrest
                  exact hrest
              · next heq =>
                  rw [heq] at hrest
                  exact hrest
      | _ => exact ⟨rfl, rfl⟩

theorem sameRequests_ingestReplay (encodedBytes : JsonObject → Nat) (p : JavaBodyProtocol)
    (message : JsonObject) :
    SameRequests p (p.ingestReplay encodedBytes message).2 := by
  have hgap : ∀ gap, SameRequests p (p.takeGap gap).2 := by
    intro gap
    cases gap <;> exact ⟨rfl, rfl⟩
  unfold ingestReplay
  split
  · exact ⟨rfl, rfl⟩
  · next gap _ =>
      dsimp only
      split
      · next events _ =>
          have hrest := (hgap gap).trans
            (sameRequests_sequenceReplayed encodedBytes (p.takeGap gap).2 events)
          split
          · next heq =>
              rw [heq] at hrest
              exact hrest
          · next heq =>
              rw [heq] at hrest
              exact hrest
      · exact hgap gap

theorem sameRequests_acceptHello {p p' : JavaBodyProtocol} {message : JsonObject}
    (h : p.acceptHello message = .ok p') : SameRequests p p' := by
  unfold acceptHello at h
  simp only [bind, Except.bind, throw, throwThe, MonadExceptOf.throw, pure, Except.pure] at h
  split at h
  · cases h
  · split at h
    · cases h
    · split at h
      · cases h
      · split at h
        · cases h
        · obtain rfl := Except.ok.inj h
          exact ⟨rfl, rfl⟩

/-- The request id a frame names. -/
def frameRequestId? : Json → Option String
  | .obj message => str? message "request_id"
  | _ => none

/-- A step may settle the request it names, and no other. -/
def Settles (id : Option String) (p p' : JavaBodyProtocol) : Prop :=
  p'.requestCounter = p.requestCounter
    ∧ ∀ requestId, p'.pending requestId = p.pending requestId
      ∨ id = some requestId ∧ p'.pending requestId = none

theorem SameRequests.settles {p p' : JavaBodyProtocol} (h : SameRequests p p')
    (id : Option String) : Settles id p p' :=
  ⟨h.1, fun _ => .inl (congrFun h.2 _)⟩

theorem settles_popPending (p : JavaBodyProtocol) (requestId : String) :
    Settles (some requestId) p (p.popPending requestId).2 := by
  refine ⟨rfl, fun id => ?_⟩
  by_cases hid : id = requestId
  · subst hid
    exact .inr ⟨rfl, Function.update_self ..⟩
  · exact .inl (Function.update_of_ne hid ..)

theorem Settles.same {id : Option String} {p p' p'' : JavaBodyProtocol} (h : Settles id p p')
    (h' : SameRequests p' p'') : Settles id p p'' := by
  refine ⟨h'.1.trans h.1, fun requestId => ?_⟩
  rw [h'.2]
  exact h.2 requestId

theorem settles_feedError (p : JavaBodyProtocol) (message : JsonObject) :
    Settles (str? message "request_id") p (p.feedError message).2 := by
  unfold feedError
  cases hid : str? message "request_id" with
  | none =>
      dsimp only
      split <;> exact ⟨rfl, fun _ => .inl rfl⟩
  | some requestId =>
      have hpop := settles_popPending p requestId
      dsimp only
      split <;> exact hpop

/-- How a response frame is answered, once its fields are there. -/
theorem feedResponse_settled {p : JavaBodyProtocol} {message : JsonObject}
    {frameType requestId requestType : String} (htype : str? message "type" = some frameType)
    (hid : str? message "request_id" = some requestId)
    (hpending : p.pending requestId = some requestType) :
    SameRequests (p.popPending requestId).2 (p.feedResponse encodedBytes message).2 := by
  simp only [feedResponse, htype, hid, popPending, hpending]
  split
  · exact ⟨rfl, rfl⟩
  split
  · exact ⟨rfl, rfl⟩
  split
  · split
    · exact ⟨rfl, rfl⟩
    · next h => exact sameRequests_acceptHello h
  split
  · have hreplay := sameRequests_ingestReplay encodedBytes
      (p.popPending requestId).2 message
    split
    · next heq =>
        simp only [popPending] at hreplay
        rw [heq] at hreplay
        exact hreplay
    · next heq =>
        simp only [popPending] at hreplay
        rw [heq] at hreplay
        exact hreplay
  · exact ⟨rfl, rfl⟩

theorem settles_feedResponse (p : JavaBodyProtocol) (message : JsonObject) :
    Settles (str? message "request_id") p (p.feedResponse encodedBytes message).2 := by
  cases htype : str? message "type" with
  | none =>
      simp only [feedResponse, htype]
      exact ⟨rfl, fun _ => .inl rfl⟩
  | some frameType =>
      cases hid : str? message "request_id" with
      | none =>
          simp only [feedResponse, htype, hid]
          exact ⟨rfl, fun _ => .inl rfl⟩
      | some requestId =>
          cases hpending : p.pending requestId with
          | none =>
              simp only [feedResponse, htype, hid, popPending, hpending]
              exact settles_popPending p requestId
          | some requestType =>
              exact (settles_popPending p requestId).same (feedResponse_settled htype hid hpending)

theorem settles_feed (p : JavaBodyProtocol) (frame : Json) :
    Settles (frameRequestId? frame) p (p.feed encodedBytes frame).2 := by
  have hquiet : ∀ id, Settles id p p := fun id => ⟨rfl, fun _ => .inl rfl⟩
  cases frame with
  | obj message =>
      simp only [feed, feedObject, frameRequestId?]
      split
      · split
        · exact hquiet _
        · exact settles_feedError p message
      split
      · exact hquiet _
      split
      · split
        · exact hquiet _
        · exact (sameRequests_sequenceEvent p _).settles _
      · exact settles_feedError p message
      · exact hquiet _
      · exact settles_feedResponse p message
  | _ => exact hquiet _

end JavaBodyProtocol

/-! ## The answer is taken once -/

namespace JavaBodyProtocol

/-- A response of the type the request expects, under its id. -/
structure Answers (requestType requestId : String) (message : JsonObject) : Prop where
  channel : str? message "channel" = some channelName
  type : str? message "type" = some (expectedType requestType)
  requestId : str? message "request_id" = some requestId

section Answer

variable (encodedBytes : JsonObject → Nat) (p : JavaBodyProtocol)

/-- What the contents of a response that belongs to a request can break:
its terminal, its negotiation, its replay. -/
def BreaksContract (requestType requestId : String) (message : JsonObject) (e : FeedError) : Prop :=
  (message.get? "terminal").getD .null ≠ .null
      ∧ validateTerminalEnvelope encodedBytes ((message.get? "terminal").getD .null) = .error e
    ∨ expectedType requestType = "HELLO_ACK"
      ∧ (p.popPending requestId).2.acceptHello message = .error e
    ∨ expectedType requestType = "RESUME_EVENTS_RESULT"
      ∧ ((p.popPending requestId).2.ingestReplay encodedBytes message).1 = .error e

/-- `feed` takes the response for the request's: it returns it, unless its
contents break the contract. -/
def Takes (requestType requestId : String) (message : JsonObject) : Prop :=
  (∃ items, (p.feed encodedBytes (.obj message)).1
      = .ok (.response ⟨requestId, requestType, expectedType requestType, message⟩ :: items))
    ∨ ∃ e, (p.feed encodedBytes (.obj message)).1 = .error e
      ∧ BreaksContract encodedBytes p requestType requestId message e

/-- `feed` knows of no such request. -/
def Refuses (requestId : String) (message : JsonObject) : Prop :=
  (p.feed encodedBytes (.obj message)).1 = .error (.unknownRequestId requestId)

/-- From this state on a response to the request is taken exactly once:
when it comes first, whatever was requested, seeded or received about
other requests before, and never again, whatever comes in between. -/
def AcceptedOnce (requestType requestId : String) : Prop :=
  ∀ message, Answers requestType requestId message →
    ∀ inputs, (∀ frame, .frame frame ∈ inputs → frameRequestId? frame ≠ some requestId) →
      Takes encodedBytes (exec (step encodedBytes) p inputs).2 requestType requestId message
      ∧ ∀ later, Refuses encodedBytes (exec (step encodedBytes)
          ((exec (step encodedBytes) p inputs).2.feed encodedBytes (.obj message)).2 later).2
          requestId message

end Answer

variable {encodedBytes : JsonObject → Nat} {p : JavaBodyProtocol}
variable {requestType requestId : String} {message : JsonObject}

theorem feed_answer (h : Answers requestType requestId message)
    (hframe : expectedType requestType ∉ ["EVENT", "ERROR", "MUTATION_PROPOSAL"]) :
    p.feed encodedBytes (.obj message) = p.feedResponse encodedBytes message := by
  simp only [List.mem_cons, List.not_mem_nil, or_false, not_or] at hframe
  simp only [feed, feedObject, h.channel, h.type]
  rw [if_neg (by decide), if_neg (by simp)]
  split
  · next heq => exact absurd (Option.some.inj heq) hframe.1
  · next heq => exact absurd (Option.some.inj heq) hframe.2.1
  · next heq => exact absurd (Option.some.inj heq) hframe.2.2
  · rfl

theorem takes_of_pending (h : Answers requestType requestId message)
    (hframe : expectedType requestType ∉ ["EVENT", "ERROR", "MUTATION_PROPOSAL"])
    (hpending : p.pending requestId = some requestType) :
    Takes encodedBytes p requestType requestId message := by
  unfold Takes BreaksContract
  rw [feed_answer h hframe]
  simp only [feedResponse, h.type, h.requestId, popPending, hpending, ne_eq, not_true_eq_false,
    if_false]
  split
  · next e hterminal =>
      split at hterminal
      · cases hterminal
      · next hne => exact .inr ⟨e, rfl, .inl ⟨hne, hterminal⟩⟩
  split
  · next hhello =>
      split
      · next e he => exact .inr ⟨e, rfl, .inr (.inl ⟨hhello, he⟩)⟩
      · exact .inl ⟨[], rfl⟩
  split
  · next hresume =>
      split
      · next e _ he =>
          exact .inr ⟨e, rfl, .inr (.inr ⟨hresume, congrArg Prod.fst he⟩)⟩
      · next items _ _ => exact .inl ⟨items, rfl⟩
  · exact .inl ⟨[], rfl⟩

theorem refuses_of_pending (h : Answers requestType requestId message)
    (hframe : expectedType requestType ∉ ["EVENT", "ERROR", "MUTATION_PROPOSAL"])
    (hpending : p.pending requestId = none) : Refuses encodedBytes p requestId message := by
  unfold Refuses
  rw [feed_answer h hframe]
  simp only [feedResponse, h.type, h.requestId, popPending, hpending]

/-- What is registered under the `n`-th request id, once it was given out. -/
structure Registered (n : Nat) (value : Option String) (p : JavaBodyProtocol) : Prop where
  given : n ≤ p.requestCounter
  pending : p.pending s!"r-{n}" = value

theorem requestId_injective {n m : Nat} (h : s!"r-{n}" = s!"r-{m}") : n = m := by
  have hlist := congrArg String.toList h
  have hdigits : Nat.toDigits 10 n = Nat.toDigits 10 m := by
    simpa [toString] using hlist
  rw [← @Nat.ofDigitChars_toDigits 10 n (by decide) (by decide), hdigits,
    Nat.ofDigitChars_toDigits (by decide) (by decide)]

theorem Registered.step {n : Nat} {value : Option String} (h : Registered n value p)
    {i : WireInput}
    (hframe : value = none ∨ ∀ frame, i = .frame frame → frameRequestId? frame ≠ some s!"r-{n}") :
    Registered n value (JavaBodyProtocol.step encodedBytes p i).2 := by
  cases i with
  | request requestType body =>
      have hne : s!"r-{n}" ≠ s!"r-{p.requestCounter + 1}" := fun heq => by
        have hn := requestId_injective heq
        have hgiven := h.given
        omega
      refine ⟨Nat.le_succ_of_le h.given, ?_⟩
      exact (Function.update_of_ne hne ..).trans h.pending
  | seed bot seq => exact ⟨h.given, h.pending⟩
  | frame frame =>
      have hfeed : Settles (frameRequestId? frame) p (p.feed encodedBytes frame).2 :=
        settles_feed p frame
      obtain ⟨hcounter, hsettles⟩ := hfeed
      refine ⟨hcounter ▸ h.given, ?_⟩
      rcases hsettles s!"r-{n}" with hsame | ⟨hnamed, hnone⟩
      · exact hsame.trans h.pending
      · rcases hframe with rfl | hframe
        · exact hnone
        · exact absurd hnamed (hframe frame rfl)

theorem Registered.reached {n : Nat} {value : Option String} {inputs : List WireInput}
    (h : Registered n value p)
    (hframe : value = none
      ∨ ∀ frame, .frame frame ∈ inputs → frameRequestId? frame ≠ some s!"r-{n}") :
    Registered n value (exec (JavaBodyProtocol.step encodedBytes) p inputs).2 := by
  induction inputs generalizing p with
  | nil => exact h
  | cons i inputs ih =>
      refine ih (h.step ?_) ?_
      · exact hframe.imp id fun hnot frame hi => hnot frame (hi ▸ List.mem_cons_self)
      · exact hframe.imp id fun hnot frame hmem => hnot frame (List.mem_cons_of_mem _ hmem)

/-- A registered request is answered once. -/
theorem Registered.acceptedOnce {n : Nat} (h : Registered n (some requestType) p)
    (hframe : expectedType requestType ∉ ["EVENT", "ERROR", "MUTATION_PROPOSAL"]) :
    AcceptedOnce encodedBytes p requestType s!"r-{n}" := by
  intro message hanswers inputs hinputs
  have hreached : Registered n (some requestType)
      (exec (JavaBodyProtocol.step encodedBytes) p inputs).2 := h.reached (.inr hinputs)
  generalize (exec (JavaBodyProtocol.step encodedBytes) p inputs).2 = q at hreached ⊢
  refine ⟨takes_of_pending hanswers hframe hreached.pending, fun later => ?_⟩
  have hsettled : Registered n none (q.feed encodedBytes (.obj message)).2 := by
    rw [feed_answer hanswers hframe]
    have hsame : SameRequests (q.popPending s!"r-{n}").2 (q.feedResponse encodedBytes message).2 :=
      feedResponse_settled hanswers.type hanswers.requestId hreached.pending
    refine ⟨?_, ?_⟩
    · rw [hsame.1]
      exact hreached.given
    · rw [hsame.2]
      exact Function.update_self ..
  exact refuses_of_pending hanswers hframe (hsettled.reached (.inl rfl)).pending

end JavaBodyProtocol

/-! ## Whose envelope it is -/

/-- The message is the builder's own: its envelope, its request id, the
caller's bot and action. -/
structure EnvelopeKept (c : RequestCall) (p : JavaBodyProtocol) (message : JsonObject) : Prop where
  channel : message.get? "channel" = some (.str channelName)
  protocol : message.get? "protocol" = some (.str protocolName)
  type : message.get? "type" = some (.str c.requestType)
  requestId : message.get? "request_id" = some (.str p.nextRequestId)
  botName : ∀ name, c.botName? = some name → message.get? "bot_name" = some (.str name)
  actionId : ∀ id, c.actionId? = some id → message.get? "action_id" = some (.str id)

/-- The caller's parameters leave the envelope as it is: a parameter under
one of its names has its value. -/
def ParamsKeepEnvelope (c : RequestCall) (p : JavaBodyProtocol) : Prop :=
  ∀ field ∈ envelopeFields c.requestType p.nextRequestId, ∀ value,
    c.params.get? field.1 = some value → value = field.2

theorem expectedType_response (c : RequestCall) :
    JavaBodyProtocol.expectedType c.requestType ∉ ["EVENT", "ERROR", "MUTATION_PROPOSAL"] := by
  cases c <;> simp [JavaBodyProtocol.expectedType, RequestCall.requestType]

theorem envelopeKept_iff {c : RequestCall} {p : JavaBodyProtocol} {body : JsonObject}
    (hbody : BodySpec c body) :
    EnvelopeKept c p (p.request c.requestType body).1 ↔ ParamsKeepEnvelope c p := by
  rw [JavaBodyProtocol.request_fst]
  have hget : ∀ field ∈ envelopeFields c.requestType p.nextRequestId,
      ((envelopeFields c.requestType p.nextRequestId).update body).get? field.1
        = some ((c.params.get? field.1).getD field.2) := by
    intro field hfield
    have hkey : field.1 ∈ envelopeKeys :=
      List.mem_map_of_mem (f := Prod.fst) hfield
    have hown : Dict.get? (envelopeFields c.requestType p.nextRequestId) field.1 = some field.2 :=
      (Dict.mem_iff_get? (by simp [envelopeFields])).mp hfield
    rw [Dict.get?_update hbody.nodup, hbody.params _ hkey, hown]
    cases c.params.get? field.1 <;> rfl
  have hcaller : ∀ {key : String} {value : Json}, body.get? key = some value →
      ((envelopeFields c.requestType p.nextRequestId).update body).get? key = some value := by
    intro key value hvalue
    rw [Dict.get?_update hbody.nodup, hvalue]
    rfl
  have hfield : ∀ field ∈ envelopeFields c.requestType p.nextRequestId,
      ((envelopeFields c.requestType p.nextRequestId).update body).get? field.1 = some field.2
        ↔ ∀ value, c.params.get? field.1 = some value → value = field.2 := by
    intro field hmem
    rw [hget field hmem, Option.some_inj]
    cases hvalue : c.params.get? field.1 with
    | none => simp
    | some value => simp
  constructor
  · intro h field hmem
    refine (hfield field hmem).mp ?_
    simp only [envelopeFields, List.mem_cons, List.not_mem_nil, or_false] at hmem
    rcases hmem with rfl | rfl | rfl | rfl
    · exact h.channel
    · exact h.protocol
    · exact h.type
    · exact h.requestId
  · intro h
    have hall := fun field hmem => (hfield field hmem).mpr (h field hmem)
    exact {
      channel := hall ("channel", .str channelName) (by simp [envelopeFields])
      protocol := hall ("protocol", .str protocolName) (by simp [envelopeFields])
      type := hall ("type", .str c.requestType) (by simp [envelopeFields])
      requestId := hall ("request_id", .str p.nextRequestId) (by simp [envelopeFields])
      botName := fun name hname => hcaller (hbody.botName name hname)
      actionId := fun id hid => hcaller (hbody.actionId id hid) }

/-- **Who writes the envelope.** A message a builder returns is its own,
and its answer is taken exactly once, unless a parameter of the caller's
stands under a name of the envelope with another value. -/
theorem request_envelope_iff (canonicalUuid : String → Option String)
    (encodedBytes : JsonObject → Nat) {c : RequestCall} {p p' : JavaBodyProtocol}
    {message : JsonObject} (hbuilt : c.run canonicalUuid p = .ok (message, p')) :
    EnvelopeKept c p message
        ∧ JavaBodyProtocol.AcceptedOnce encodedBytes p' c.requestType p.nextRequestId
      ↔ ParamsKeepEnvelope c p := by
  obtain ⟨body, hbody, hresult⟩ := RequestCall.run_spec hbuilt
  have hmessage : message = (p.request c.requestType body).1 := congrArg Prod.fst hresult
  have hp' : p' = (p.request c.requestType body).2 := congrArg Prod.snd hresult
  have hregistered : JavaBodyProtocol.Registered (p.requestCounter + 1) (some c.requestType)
      (p.request c.requestType body).2 := ⟨le_rfl, Function.update_self ..⟩
  rw [hmessage, hp', envelopeKept_iff hbody]
  exact and_iff_left (hregistered.acceptedOnce (expectedType_response c))

/-- A connection that may move items. -/
def transferConnection : JavaBodyProtocol :=
  { JavaBodyProtocol.fresh with negotiated := some ⟨16384, 40, ["CONTAINER_TRANSFER"]⟩ }

def transferCall (params : JsonObject) : RequestCall :=
  .containerTransfer "MineBot_1" "container-1" params

theorem request_envelope_transfer :
    ∃ message p', (transferCall [("bot_name", .str "OtherBot"), ("bot_slot", .int 1)]).run
        (fun _ => none) transferConnection = .ok (message, p')
      ∧ EnvelopeKept (transferCall [("bot_name", .str "OtherBot"), ("bot_slot", .int 1)])
        transferConnection message
      ∧ JavaBodyProtocol.AcceptedOnce (fun _ => 0) p' "CONTAINER_TRANSFER" "r-1" := by
  have hkeep : ParamsKeepEnvelope (transferCall [("bot_name", .str "OtherBot"),
      ("bot_slot", .int 1)]) transferConnection := by
    intro field hfield value hvalue
    simp only [envelopeFields, List.mem_cons, List.not_mem_nil, or_false] at hfield
    rcases hfield with rfl | rfl | rfl | rfl <;> cases hvalue
  exact ⟨_, _, rfl, (request_envelope_iff (fun _ => none) (fun _ => 0) rfl).mpr hkeep⟩

/-- A parameter `type` makes the transfer another request. -/
theorem params_rewrite_type :
    ∃ message p', (transferCall [("type", .str "SAY")]).run (fun _ => none) transferConnection
        = .ok (message, p')
      ∧ ¬ EnvelopeKept (transferCall [("type", .str "SAY")]) transferConnection message := by
  refine ⟨_, _, rfl, fun h => ?_⟩
  exact absurd h.type (by decide)

end MineBot
