import MineBot.Json

/-!
# The observer control channel

`ObserverControlChannel` leases the observer's camera to one controller at a
time. A controller attaches under a lease id, updates and detaches under
rising generations, and keeps the lease with heartbeats; ticks let a lease
expire. Replies to acknowledged requests are kept, so that a request sent
twice takes effect once.

The Minecraft side, `ObserverAccess`, is a parameter with a state of its own:
each of its calls answers or throws, and may change that state, in any way.
So is what Gson, `UUID` and the floating-point library make of a value. A
`double` is the rational it denotes. Handlers change the channel only after
the last call that may throw, so a handler that throws leaves it as it was.
-/

namespace MineBot

namespace ObserverControl

/-! ## Java's values -/

/-- `Character.isWhitespace`. -/
def isJavaWhitespace (c : Char) : Bool :=
  let n := c.toNat
  (9 ≤ n && n ≤ 13) || (0x1c ≤ n && n ≤ 0x20) || n == 0x1680
    || (0x2000 ≤ n && n ≤ 0x200a && n != 0x2007) || n == 0x2028 || n == 0x2029 || n == 0x205f
    || n == 0x3000

/-- `isBlank()`. -/
def isBlank (value : String) : Bool := value.toList.all isJavaWhitespace

/-- `length()`, in UTF-16 units. -/
def utf16Length (value : String) : Nat :=
  (value.toList.map fun c => if c.toNat < 0x10000 then 1 else 2).sum

/-- An `int` after overflow. -/
def int32 (n : Int) : Int := n.bmod (2 ^ 32)

/-- `Long.MAX_VALUE`. -/
def longMax : Int := 2 ^ 63 - 1

/-- What the libraries make of a value; `none` where they throw, or yield a
number that is not finite. -/
structure Platform where
  /-- `getAsString`, of a primitive -/
  asString : Json → Option String
  asLong : Json → Option Int
  asDouble : Json → Option Rat
  asBoolean : Json → Option Bool
  /-- `UUID.fromString` -/
  uuid : String → Option String
  /-- a `double` as a `float` -/
  toFloat : Rat → Option Rat
  /-- yaw and pitch from a position to a point, as `Math.atan2` has them -/
  lookAngles : Rat × Rat × Rat → Rat × Rat × Rat → Option Rat × Option Rat

/-! ## Records -/

inductive ObserverMode where
  | follow
  | fixed
deriving DecidableEq

def ObserverMode.wireName : ObserverMode → String
  | .follow => "follow"
  | .fixed => "fixed"

structure FollowSettings where
  distance : Rat
  azimuthDeg : Rat
  elevationDeg : Rat
  heightOffset : Rat
  stiffness : Rat
  fovDeg : Rat
  collisionMargin : Rat
deriving DecidableEq

def FollowSettings.defaults : FollowSettings := ⟨5, 180, 25, 1.6, 0.2, 70, 0.25⟩

structure FixedPose where
  dimension : String
  x : Rat
  y : Rat
  z : Rat
  yaw : Rat
  pitch : Rat
  allowChunkLoading : Bool
deriving DecidableEq

inductive CameraDirective where
  | follow (generation : Int) (targetId : String) (settings : FollowSettings)
  | fixed (generation : Int) (pose : FixedPose)
  | detached (generation : Int)
deriving DecidableEq

/-- What a handler throws. -/
inductive Exc where
  /-- `ObserverAccessException` -/
  | access (code message : String) (retryable : Bool)
  /-- `IllegalArgumentException` -/
  | illegalArgument (message : String)
  /-- another `RuntimeException` -/
  | runtime
deriving DecidableEq

structure Mutation where
  requestId : String
  leaseId : String
  generation : Int
deriving DecidableEq

def Mutation.cacheKey (m : Mutation) : String :=
  m.leaseId ++ "\x00" ++ toString m.generation ++ "\x00" ++ m.requestId

structure Session where
  leaseId : String
  generation : Int
  mode : ObserverMode
  leaseExpiresAtTick : Int
  nextControlTick : Int
  targetId : Option String
  targetName : Option String
  follow : Option FollowSettings
  fixed : Option FixedPose
  state : String
deriving DecidableEq

/-- `new Session(mutation, mode, leaseExpiresAtTick)`. -/
def Session.new (m : Mutation) (mode : ObserverMode) (leaseExpiresAtTick : Int) : Session :=
  ⟨m.leaseId, m.generation, mode, leaseExpiresAtTick, 0, none, none, none, none, "attaching"⟩

def Session.copyForMutation (s : Session) (m : Mutation) (mode : ObserverMode) : Session :=
  { s with leaseId := m.leaseId, generation := m.generation, mode }

/-- `CameraClientTelemetry`. -/
structure Telemetry where
  generation : Int
  mode : ObserverMode
  adapterState : String
  sampleCount : Int
  windowMillis : Int
  meanFrameMillis : Rat
  p50FrameMillis : Rat
  p95FrameMillis : Rat
  p99FrameMillis : Rat
deriving DecidableEq

/-- `TargetState`, what is read of it. -/
structure TargetState where
  id : String
  name : String

/-- `ObserverState`. -/
structure ObserverState where
  id : String
  connected : Bool
  name : String
  spectator : Bool
  operator : Bool
  dimension : String
  position : List Rat
  cameraTargetId : Option String

/-- A call of the Minecraft side: it answers or throws, in a state `σ`. -/
abbrev AccessM (σ : Type) := ExceptT Exc (StateM σ)

/-- `ObserverAccess`, for the server and the configured observer. -/
structure Access (σ : Type) where
  minecraftVersion : String
  observerState : AccessM σ ObserverState
  enforceObserverPolicy : AccessM σ Unit
  resolveTarget : Option String → Option String → AccessM σ TargetState
  attachToTarget : String → AccessM σ Unit
  holdFixed : FixedPose → AccessM σ Unit
  sendDirective : CameraDirective → AccessM σ Unit
  detach : Bool → AccessM σ Unit
  /-- `serverJson` -/
  serverJson : AccessM σ Json

structure Config where
  observerId : String
  leaseTtlTicks : Int

/-- The fields of the channel. -/
structure Channel where
  recentResponses : Dict String JsonObject
  session : Option Session
  lastGeneration : Int
  currentTick : Int
  lastErrorCode : Option String
  /-- `ClientTelemetrySnapshot`: the telemetry, and the tick it came at -/
  clientTelemetry : Option (Telemetry × Int)
deriving DecidableEq

/-- A new channel. -/
def Channel.new : Channel := ⟨[], none, 0, 0, none, none⟩

/-- How a request was answered. -/
inductive Answer where
  /-- acknowledged now -/
  | acknowledged (mutation : Mutation) (reply : JsonObject)
  /-- acknowledged before: the reply of then -/
  | repeated (reply : JsonObject)
  /-- `HELLO_ACK` or `STATUS_ACK` -/
  | informed (reply : JsonObject)
  | refused (reply : JsonObject)
deriving DecidableEq

/-- What is sent. -/
def Answer.reply : Answer → JsonObject
  | .acknowledged _ reply | .repeated reply | .informed reply | .refused reply => reply

/-! ## Reading a request -/

section Reads

variable (platform : Platform)

/-- `MineBotChannelRouter.stringField`. -/
def stringField (object : JsonObject) (name : String) : Option String :=
  match object.get? name with
  | none | some .null | some (.arr _) | some (.obj _) => none
  | some value => platform.asString value

def requiredString (object : JsonObject) (name : String) (maxLength : Nat) : Except Exc String :=
  let complaint := Exc.illegalArgument
    s!"{name} is required and must be at most {maxLength} characters"
  match stringField platform object name with
  | none => .error complaint
  | some value =>
      if isBlank value ∨ maxLength < utf16Length value then .error complaint else .ok value

/-- `!object.has(name) || object.get(name).isJsonNull()`. -/
def missing (object : JsonObject) (name : String) : Bool :=
  match object.get? name with
  | none | some .null => true
  | _ => false

def optionalString (object : JsonObject) (name : String) (maxLength : Nat) :
    Except Exc (Option String) :=
  if missing object name then .ok none
  else (requiredString platform object name maxLength).map some

def requiredUuid (object : JsonObject) (name : String) : Except Exc String := do
  let value ← requiredString platform object name 36
  match platform.uuid value with
  | some id => return id
  | none => throw (.illegalArgument s!"{name} must be a UUID")

def optionalUuid (object : JsonObject) (name : String) : Except Exc (Option String) :=
  if missing object name then .ok none
  else (requiredUuid platform object name).map some

/-- `requiredLong`: an integer out of range is thrown and caught again. -/
def requiredLong (object : JsonObject) (name : String) (minimum maximum : Int) : Except Exc Int :=
  match (object.get? name).bind platform.asLong with
  | some parsed =>
      if parsed < minimum ∨ maximum < parsed then
        .error (.illegalArgument s!"{name} must be an integer")
      else .ok parsed
  | none => .error (.illegalArgument s!"{name} must be an integer")

def requiredDouble (object : JsonObject) (name : String) : Except Exc Rat :=
  match (object.get? name).bind platform.asDouble with
  | some value => .ok value
  | none => .error (.illegalArgument s!"{name} must be a finite number")

def optionalDouble (object : JsonObject) (name : String) (fallback : Rat) : Except Exc Rat :=
  if (object.get? name).isSome then requiredDouble platform object name else .ok fallback

def optionalBoolean (object : JsonObject) (name : String) (fallback : Bool) : Except Exc Bool :=
  match object.get? name with
  | none => .ok fallback
  | some value => match platform.asBoolean value with
    | some b => .ok b
    | none => .error (.illegalArgument s!"{name} must be a boolean")

/-- `requiredArray` of three numbers, and its `finiteArrayValue`s. -/
def requiredTriple (object : JsonObject) (name : String) : Except Exc (Rat × Rat × Rat) :=
  match object.get? name with
  | some (.arr [x, y, z]) =>
      match platform.asDouble x, platform.asDouble y, platform.asDouble z with
      | some x, some y, some z => .ok (x, y, z)
      | _, _, _ => .error (.illegalArgument s!"{name} values must be finite numbers")
  | _ => .error (.illegalArgument s!"{name} must be an array of length 3")

/-- `request.getAsJsonObject(name)`, whose cast throws. -/
def getAsJsonObject (object : JsonObject) (name : String) : Except Exc (Option JsonObject) :=
  match object.get? name with
  | none => .ok none
  | some (.obj fields) => .ok (some fields)
  | some _ => .error .runtime

def ObserverMode.parse (value : String) : Except Exc ObserverMode :=
  if value = ObserverMode.follow.wireName then .ok .follow
  else if value = ObserverMode.fixed.wireName then .ok .fixed
  else .error (.illegalArgument "mode must be follow or fixed")

/-- The check `range` of `FollowSettings`. -/
def inRange (name : String) (value minimum maximum : Rat) : Except Exc Unit :=
  if value < minimum ∨ maximum < value then
    .error (.illegalArgument s!"{name} is outside the allowed range")
  else .ok ()

/-- `new FollowSettings(...)`, of finite values. -/
def FollowSettings.checked (settings : FollowSettings) : Except Exc FollowSettings := do
  inRange "distance" settings.distance 0.1 64
  inRange "elevation_deg" settings.elevationDeg (-89) 89
  inRange "height_offset" settings.heightOffset (-64) 64
  inRange "stiffness" settings.stiffness 0 1
  inRange "fov_deg" settings.fovDeg 1 170
  inRange "collision_margin" settings.collisionMargin 0 8
  return settings

def parseFollow (follow : Option JsonObject) : Except Exc FollowSettings :=
  let defaults := FollowSettings.defaults
  match follow with
  | none => .ok defaults
  | some follow => do
      let distance ← optionalDouble platform follow "distance" defaults.distance
      let azimuthDeg ← optionalDouble platform follow "azimuth_deg" defaults.azimuthDeg
      let elevationDeg ← optionalDouble platform follow "elevation_deg" defaults.elevationDeg
      let heightOffset ← optionalDouble platform follow "height_offset" defaults.heightOffset
      let stiffness ← optionalDouble platform follow "stiffness" defaults.stiffness
      let fovDeg ← optionalDouble platform follow "fov_deg" defaults.fovDeg
      let collisionMargin ←
        optionalDouble platform follow "collision_margin" defaults.collisionMargin
      FollowSettings.checked
        { distance, azimuthDeg, elevationDeg, heightOffset, stiffness, fovDeg, collisionMargin }

/-- `new FixedPose(...)`, of finite coordinates and of angles that may not be. -/
def FixedPose.checked (dimension : String) (position : Rat × Rat × Rat) (yaw pitch : Option Rat)
    (allowChunkLoading : Bool) : Except Exc FixedPose :=
  let (x, y, z) := position
  if isBlank dimension ∨ 128 < utf16Length dimension then
    .error (.illegalArgument "dimension is required")
  else match yaw, pitch with
    | some yaw, some pitch =>
        if x < -30000000 ∨ 30000000 < x ∨ z < -30000000 ∨ 30000000 < z ∨
            y < -2048 ∨ 2048 < y then
          .error (.illegalArgument "fixed pose is outside world bounds")
        else if pitch < -90 ∨ 90 < pitch then
          .error (.illegalArgument "fixed pitch is outside the allowed range")
        else .ok { dimension, x, y, z, yaw, pitch, allowChunkLoading }
    | _, _ => .error (.illegalArgument "fixed pose values must be finite")

def parseFixed : Option JsonObject → Except Exc FixedPose
  | none => .error (.illegalArgument "fixed mode requires fixed settings")
  | some fixed => do
      match fixed.get? "position" with
      | some (.arr [_, _, _]) => pure ()
      | _ => throw (.illegalArgument "position must be an array of length 3")
      let dimension ← requiredString platform fixed "dimension" 128
      let position ← requiredTriple platform fixed "position"
      let (yaw, pitch) ←
        if (fixed.get? "look_at").isSome then do
          let lookAt ← requiredTriple platform fixed "look_at"
          pure (platform.lookAngles position lookAt)
        else do
          let yaw ← requiredDouble platform fixed "yaw"
          let pitch ← requiredDouble platform fixed "pitch"
          pure (platform.toFloat yaw, platform.toFloat pitch)
      let allowChunkLoading ← optionalBoolean platform fixed "allow_chunk_loading" false
      FixedPose.checked dimension position yaw pitch allowChunkLoading

/-- `mutation(request)`. -/
def parseMutation (config : Config) (request : JsonObject) : Except Exc Mutation := do
  let requestId ← requiredString platform request "request_id" 128
  let leaseId ← requiredString platform request "lease_id" 128
  if utf16Length leaseId < 16 then throw (.illegalArgument "lease_id is too short")
  let observerId ← requiredUuid platform request "observer_id"
  if config.observerId ≠ observerId then
    throw (.illegalArgument "observer_id is not the configured observer")
  let generation ← requiredLong platform request "generation" 1 longMax
  return { requestId, leaseId, generation }

end Reads

/-! ## Replies -/

/-- `CHANNEL`. -/
def channelName : String := "observer-control"

/-- `PROTOCOL`. -/
def protocolName : String := "observer-control/1"

/-- `MAX_IDEMPOTENCY_ENTRIES`. -/
def maxIdempotencyEntries : Nat := 128

/-- `CONTROL_INTERVAL_TICKS`. -/
def controlIntervalTicks : Int := 5

/-- `REQUEST_TYPES`, sorted. -/
def requestTypes : List String := ["ATTACH", "DETACH", "HEARTBEAT", "HELLO", "STATUS", "UPDATE"]

/-- A property that is added when it is not null. -/
def textField (name : String) (value : Option String) : JsonObject :=
  (value.map fun text => (name, Json.str text)).toList

section Replies

variable (platform : Platform)

/-- `MineBotChannelRouter.error`. -/
def errorReply (request : JsonObject) (code message : String) (retryable : Bool) : JsonObject :=
  [("channel", .str channelName), ("type", .str "ERROR")]
    ++ textField "request_id" (stringField platform request "request_id")
    ++ [("code", .str code), ("message", .str message), ("retryable", .bool retryable)]

def baseResponse (request : JsonObject) (type : String) : JsonObject :=
  [("channel", .str channelName), ("type", .str type)]
    ++ textField "request_id" (stringField platform request "request_id")

def sessionResponse (request : JsonObject) (type : String) (active : Session) : JsonObject :=
  baseResponse platform request type ++ [("state", .str active.state),
    ("mode", .str active.mode.wireName), ("generation", .int active.generation)]

def observerJson (state : ObserverState) : Json :=
  .obj ([("id", .str state.id), ("connected", .bool state.connected)] ++
    if state.connected then
      [("name", .str state.name), ("spectator", .bool state.spectator),
        ("operator", .bool state.operator), ("dimension", .str state.dimension),
        ("position", .arr (state.position.map .float))]
        ++ textField "camera_target_id" state.cameraTargetId
    else [])

def clientTelemetryJson (snapshot : Telemetry × Int) (currentTick : Int) : Json :=
  let (telemetry, receivedAtTick) := snapshot
  let ageTicks := max 0 (int32 (currentTick - receivedAtTick))
  .obj [("generation", .int telemetry.generation), ("mode", .str telemetry.mode.wireName),
    ("adapter_state", .str telemetry.adapterState), ("sample_count", .int telemetry.sampleCount),
    ("window_ms", .int telemetry.windowMillis), ("mean_frame_ms", .float telemetry.meanFrameMillis),
    ("p50_frame_ms", .float telemetry.p50FrameMillis),
    ("p95_frame_ms", .float telemetry.p95FrameMillis),
    ("p99_frame_ms", .float telemetry.p99FrameMillis), ("age_ticks", .int ageTicks),
    ("stale", .bool (60 < ageTicks))]

end Replies

/-! ## Sessions and the reply cache -/

def isCurrentGeneration (active : Session) (m : Mutation) : Bool :=
  active.leaseId = m.leaseId ∧ active.generation = m.generation

def isSuccessorGeneration (active : Session) (m : Mutation) : Bool :=
  active.leaseId = m.leaseId ∧ active.generation < m.generation

def nextGeneration (generation : Int) : Int :=
  if generation = longMax then generation else generation + 1

namespace Channel

/-- The active session, if `accepts` it for the request. -/
def requireSession (accepts : Session → Mutation → Bool) (c : Channel) (m : Mutation) :
    Except Exc Session :=
  match c.session with
  | none => .error (.illegalArgument "no observer lease is active")
  | some active =>
      if accepts active m then .ok active
      else .error (.illegalArgument "lease or generation is stale")

def requireCurrentSession : Channel → Mutation → Except Exc Session :=
  requireSession isCurrentGeneration

def requireSuccessorSession : Channel → Mutation → Except Exc Session :=
  requireSession isSuccessorGeneration

def cached (c : Channel) (m : Mutation) : Option JsonObject := c.recentResponses.get? m.cacheKey

def cache (c : Channel) (m : Mutation) (response : JsonObject) : Channel :=
  let responses := c.recentResponses.set m.cacheKey response
  { c with recentResponses := responses.drop (responses.length - maxIdempotencyEntries) }

end Channel

section Handlers

variable {σ : Type} (platform : Platform) (access : Access σ) (config : Config)

/-- `expireSession(disconnect, reason, cleanupGeneration)`. What the access
calls throw is swallowed. -/
def expireSessionAt (disconnect : Bool) (reason : String) (cleanupGeneration : Int) (c : Channel) :
    StateM σ Channel := do
  let c' := { c with session := none, clientTelemetry := none }
  let c' ← match c.session with
    | none => pure c'
    | some _ => do
        let _ ← (access.sendDirective (.detached cleanupGeneration)).run
        pure { c' with lastGeneration := max c'.lastGeneration cleanupGeneration }
  let _ ← (access.detach disconnect).run
  -- `detach_failed` is overwritten at once
  return { c' with lastErrorCode := if reason = "detached" then none else some reason }

def expireSession (disconnect : Bool) (reason : String) (c : Channel) : StateM σ Channel :=
  let cleanupGeneration := match c.session with
    | none => c.lastGeneration
    | some active => nextGeneration active.generation
  expireSessionAt access disconnect reason cleanupGeneration c

def applyMode (candidate : Session) (request : JsonObject) : AccessM σ Session :=
  match candidate.mode with
  | .follow => do
      let targetId ← optionalUuid platform request "target_id"
      let targetName ← optionalString platform request "target_name" 64
      if targetId = none ∧ targetName = none then
        throw (.illegalArgument "follow mode requires target_id or target_name")
      let follow ← parseFollow platform (← getAsJsonObject request "follow")
      let target ← access.resolveTarget targetId targetName
      if target.id = config.observerId then
        throw (.illegalArgument "observer cannot target itself")
      access.attachToTarget target.id
      access.sendDirective (.follow candidate.generation target.id follow)
      return { candidate with
        targetId := some target.id, targetName := some target.name
        follow := some follow, fixed := none, state := "follow" }
  | .fixed => do
      let fixed ← parseFixed platform (← getAsJsonObject request "fixed")
      access.holdFixed fixed
      access.sendDirective (.fixed candidate.generation fixed)
      return { candidate with
        targetId := none, targetName := none, follow := none, fixed := some fixed
        state := "fixed" }

def handleHello (c : Channel) (request : JsonObject) : AccessM σ (Answer × Channel) := do
  let protocol ← requiredString platform request "protocol" 64
  if protocol ≠ protocolName then
    throw (.illegalArgument "unsupported observer-control protocol")
  return (.informed (baseResponse platform request "HELLO_ACK" ++
    [("protocol", .str protocolName), ("minecraft_version", .str access.minecraftVersion),
      ("max_request_bytes", .int (16 * 1024)), ("max_requests_per_second", .int 40),
      ("lease_ttl_ticks", .int config.leaseTtlTicks),
      ("request_types", .arr (requestTypes.map .str))]), c)

def handleAttach (c : Channel) (request : JsonObject) : AccessM σ (Answer × Channel) := do
  let m ← parseMutation platform config request
  match c.cached m with
  | some reply => return (.repeated reply, c)
  | none =>
      if c.session.isSome then throw (.illegalArgument "another observer lease is active")
      if m.generation ≤ c.lastGeneration then throw (.illegalArgument "generation is stale")
      let mode ← ObserverMode.parse (← requiredString platform request "mode" 16)
      let candidate := Session.new m mode (int32 (c.currentTick + config.leaseTtlTicks))
      access.enforceObserverPolicy
      let candidate ← applyMode platform access config candidate request
      let reply := sessionResponse platform request "ATTACH_ACK" candidate
      let c := { c with
        session := some candidate, clientTelemetry := none
        lastGeneration := max c.lastGeneration m.generation, lastErrorCode := none }
      return (.acknowledged m reply, c.cache m reply)

def handleUpdate (c : Channel) (request : JsonObject) : AccessM σ (Answer × Channel) := do
  let m ← parseMutation platform config request
  match c.cached m with
  | some reply => return (.repeated reply, c)
  | none =>
      let active ← c.requireSuccessorSession m
      let mode ← ObserverMode.parse (← requiredString platform request "mode" 16)
      let candidate ← applyMode platform access config (active.copyForMutation m mode) request
      let candidate := { candidate with
        leaseExpiresAtTick := int32 (c.currentTick + config.leaseTtlTicks)
        nextControlTick := int32 (c.currentTick + controlIntervalTicks) }
      let reply := sessionResponse platform request "UPDATE_ACK" candidate
      let c := { c with
        session := some candidate, clientTelemetry := none
        lastGeneration := max c.lastGeneration m.generation, lastErrorCode := none }
      return (.acknowledged m reply, c.cache m reply)

def handleHeartbeat (c : Channel) (request : JsonObject) : AccessM σ (Answer × Channel) := do
  let m ← parseMutation platform config request
  match c.cached m with
  | some reply => return (.repeated reply, c)
  | none =>
      let active ← c.requireCurrentSession m
      let active := { active with
        leaseExpiresAtTick := int32 (c.currentTick + config.leaseTtlTicks) }
      let reply := sessionResponse platform request "HEARTBEAT_ACK" active
      return (.acknowledged m reply, ({ c with session := some active } : Channel).cache m reply)

def handleDetach (c : Channel) (request : JsonObject) : AccessM σ (Answer × Channel) := do
  let m ← parseMutation platform config request
  match c.cached m with
  | some reply => return (.repeated reply, c)
  | none =>
      let active ← c.requireSuccessorSession m
      let candidate := active.copyForMutation m active.mode
      let reply := sessionResponse platform request "DETACH_ACK" candidate
      let c ← expireSessionAt access false "detached" m.generation (c.cache m reply)
      return (.acknowledged m reply, c)

def handleStatus (c : Channel) (request : JsonObject) : AccessM σ (Answer × Channel) := do
  let observer ← access.observerState
  let server ← access.serverJson
  let lease := match c.session with
    | none => [("state", .str "detached")]
    | some active =>
        [("state", .str active.state), ("mode", .str active.mode.wireName),
          ("generation", .int active.generation),
          ("lease_remaining_ticks",
            .int (max 0 (int32 (active.leaseExpiresAtTick - c.currentTick))))]
          ++ textField "target_id" active.targetId ++ textField "target_name" active.targetName
  let telemetry := match c.session, c.clientTelemetry with
    | some active, some snapshot =>
        if snapshot.1.generation = active.generation then
          [("client_telemetry", clientTelemetryJson snapshot c.currentTick)]
        else []
    | _, _ => []
  return (.informed (baseResponse platform request "STATUS_ACK" ++
    [("observer", observerJson observer), ("server", server),
      ("last_generation", .int c.lastGeneration)]
    ++ lease ++ textField "error_code" c.lastErrorCode ++ telemetry), c)

/-- The `switch` of `handle`. -/
def handleType (type : String) : Channel → JsonObject → AccessM σ (Answer × Channel) :=
  match type with
  | "HELLO" => handleHello platform access config
  | "ATTACH" => handleAttach platform access config
  | "UPDATE" => handleUpdate platform access config
  | "HEARTBEAT" => handleHeartbeat platform config
  | "STATUS" => handleStatus platform access
  | "DETACH" => handleDetach platform access config
  | _ => fun _ _ => throw .runtime

/-- `handle`. -/
def handle (request : JsonObject) (serverTick : Int) (c : Channel) :
    StateM σ (Answer × Channel) := do
  let c := { c with currentTick := serverTick }
  let refuse (code message : String) (retryable : Bool) : Answer :=
    .refused (errorReply platform request code message retryable)
  match stringField platform request "type" with
  | none => return (refuse "unknown_type" "unknown observer-control request type" false, c)
  | some type =>
      if type ∉ requestTypes then
        return (refuse "unknown_type" "unknown observer-control request type" false, c)
      match ← (handleType platform access config type c request).run with
      | .ok answered => return answered
      | .error (.access code message retryable) =>
          return (refuse code message retryable, { c with lastErrorCode := some code })
      | .error (.illegalArgument message) => return (refuse "invalid_request" message false, c)
      | .error .runtime =>
          return (refuse "internal_error" "observer-control request failed" true,
            { c with lastErrorCode := some "internal_error" })

/-- The `try` of `tick`: what it threw, and the session after it. -/
def control (active : Session) : StateM σ (Option Exc × Session) := do
  match ← access.enforceObserverPolicy.run with
  | .error e => return (some e, active)
  | .ok _ =>
      match active.mode with
      | .fixed => return (none, active)
      | .follow =>
          match ← (access.resolveTarget active.targetId active.targetName).run with
          | .error e => return (some e, active)
          | .ok target =>
              let active := { active with targetId := some target.id
                                          targetName := some target.name }
              match ← (access.attachToTarget target.id).run with
              | .error e => return (some e, active)
              | .ok _ => return (none, { active with state := "follow" })

/-- `active.state` after an error of the access. -/
def errorState (code : String) (retryable : Bool) : String :=
  match code with
  | "observer_offline" => "recovering"
  | "target_missing" => "target_missing"
  | _ => if retryable then "recovering" else "policy_failed"

/-- `tick`. An exception that is no `ObserverAccessException` goes on to the
server. -/
def tick (serverTick : Int) (c : Channel) : StateM σ Channel := do
  let c := { c with currentTick := serverTick }
  match c.session with
  | none => return c
  | some active =>
      if active.leaseExpiresAtTick ≤ serverTick then
        expireSession access true "lease_expired" c
      else if serverTick < active.nextControlTick then return c
      else
        let (thrown, active) ← control access
          { active with nextControlTick := int32 (serverTick + controlIntervalTicks) }
        match thrown with
        | none => return { c with session := some active, lastErrorCode := none }
        | some (.access code _ retryable) =>
            let active := { active with state := errorState code retryable }
            let c := { c with session := some active, lastErrorCode := some code }
            if retryable then return c else expireSession access true code c
        | some _ => return { c with session := some active }

/-- `close`. -/
def close (serverTick : Int) (c : Channel) : StateM σ Channel :=
  expireSession access true "bridge_stopping" { c with currentTick := serverTick }

/-- `acceptClientTelemetry`. -/
def acceptClientTelemetry (senderId : String) (telemetry : Telemetry) (serverTick : Int)
    (c : Channel) : Channel :=
  match c.session with
  | none => c
  | some active =>
      if config.observerId = senderId ∧ telemetry.generation = active.generation ∧
          telemetry.mode = active.mode then
        { c with clientTelemetry := some (telemetry, serverTick) }
      else c

/-! ## The system -/

inductive Input where
  | request (request : JsonObject) (serverTick : Int)
  | tick (serverTick : Int)
  | close (serverTick : Int)
  | telemetry (senderId : String) (telemetry : Telemetry) (serverTick : Int)

/-- The channel, and the state of the Minecraft side. -/
structure State (σ : Type) where
  channel : Channel
  world : σ

/-- One entry into the channel: its answer, to a request, and the next state. -/
def step (s : State σ) : Input → Option Answer × State σ
  | .request request serverTick =>
      let ((answer, channel), world) :=
        (handle platform access config request serverTick s.channel).run s.world
      (some answer, ⟨channel, world⟩)
  | .tick serverTick =>
      let (channel, world) := (tick access serverTick s.channel).run s.world
      (none, ⟨channel, world⟩)
  | .close serverTick =>
      let (channel, world) := (close access serverTick s.channel).run s.world
      (none, ⟨channel, world⟩)
  | .telemetry senderId telemetry serverTick =>
      (none, { s with
        channel := acceptClientTelemetry config senderId telemetry serverTick s.channel })

end Handlers

end ObserverControl

end MineBot
