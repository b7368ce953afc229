import MineBot.Text

/-!
# The life profile

`LifeStore` keeps one profile per world and bot: the places that are the
bot's own, texts, and the projects it may pick when idle. A write checks the
shape of the whole profile; a write of a project also checks, with
`register_life_tools`' `check_write`, that the blocks its calls name lie in
the area it names.

The profile stays the JSON it is. The file is the state: a write replaces it
whole or fails. What Python makes of values (`str` of what is no text, an
integer as a float, the length of the file's text) is the parameter `Python`.
-/

namespace MineBot

namespace LifeProfile

/-- What the language makes of values. -/
structure Python where
  /-- `str` of a float, a list or a mapping -/
  repr : Json → String
  /-- `float` of an integer -/
  float : Int → Rat
  /-- the characters of `json.dumps(value, indent=2, sort_keys=True)` -/
  encodedLength : Json → Nat

/-- What a write raises. -/
inductive LifeError where
  | unknownFields (fields : List String)
  | noChanges
  /-- `LifeRevisionConflict` -/
  | revision (current expected : Int)
  | operation
  | projectId
  | noProject (id : String)
  | tooManyProjects
  | noReason
  | tooLong
  /-- the field has not the required shape -/
  | shape (field : String)
  | areaNamedTwice (name : String)
  | status (project : String)
  | noArea (project area : String)
  | noWork (project : String)
  | noWorkIntent (project : String)
  | invalidWork (project : String)
  | unregistered (project : String) (tools : List String)
  | outsideArea (project tool : String) (point : Rat × Rat × Rat) (area : String)
deriving DecidableEq

/-! ## Values -/

/-- `object.get(key)`, if it is not `None`. -/
def given? (object : JsonObject) (key : String) : Option Json :=
  match object.get? key with
  | none | some .null => none
  | some value => some value

section Values

variable (py : Python)

/-- `str(value)`. -/
def pyStr : Json → String
  | .str text => text
  | .null => "None"
  | .bool b => if b then "True" else "False"
  | .int n => toString n
  | value => py.repr value

/-- `str(object.get(key) or default)`. -/
def strOr (object : JsonObject) (key default : String) : String :=
  match object.get? key with
  | some value => if value.truthy then pyStr py value else default
  | none => default

end Values

/-- `_number`. -/
def isNumber : Json → Bool
  | .int _ | .float _ => true
  | _ => false

/-- `_point`: the three numbers as they are. -/
def point (value : Option Json) (name : String) : Except LifeError Json :=
  match value with
  | some (.arr [x, y, z]) =>
      if isNumber x ∧ isNumber y ∧ isNumber z then .ok (.arr [x, y, z])
      else .error (.shape name)
  | _ => .error (.shape name)

def maxTextChars : Nat := 1000

/-- `_text`. -/
def text (value : Option Json) (name : String) : Except LifeError String :=
  match value with
  | some (.str value) =>
      if pyStrip value = "" ∨ maxTextChars < value.length then .error (.shape name)
      else .ok (pyStrip value)
  | _ => .error (.shape name)

/-- `_optional_text`. -/
def optionalText (source target : JsonObject) (key name : String) : Except LifeError JsonObject :=
  match given? source key with
  | none => .ok target
  | some value => (text (some value) name).map fun value => target.set key (.str value)

/-- `object.get(key) or []`, if it is a list. -/
def listOr (object : JsonObject) (key : String) : Option (List Json) :=
  match object.get? key with
  | none => some []
  | some (.arr xs) => some xs
  | some value => if value.truthy then none else some []

/-- `_PROJECT_ID.fullmatch`. -/
def isProjectId (id : String) : Bool :=
  let alphanumeric (c : Char) : Bool := c.isLower || c.isDigit
  match id.toList with
  | [] => false
  | c :: cs => alphanumeric c && cs.length ≤ 47 && cs.all fun c => alphanumeric c || c == '-'

/-! ## Shape checks -/

def maxAreas : Nat := 16

def maxContainers : Nat := 32

def maxRelationships : Nat := 20

def maxProjects : Nat := 12

/-- A row of `mine.areas`, after rows of these names. -/
def areaRow (area : Json) (index : Nat) (names : List String) :
    Except LifeError (String × JsonObject) :=
  match area with
  | .obj area => do
      let area : JsonObject := area
      let name ← text (area.get? "name") s!"mine.areas[{index}].name"
      if name ∈ names then throw (.areaNamedTwice name)
      let low ← point (area.get? "from") s!"mine.areas[{index}].from"
      let high ← point (area.get? "to") s!"mine.areas[{index}].to"
      let row ← optionalText area [("name", .str name), ("from", low), ("to", high)] "dimension"
        s!"mine.areas[{index}].dimension"
      return (name, row)
  | _ => .error (.shape s!"mine.areas[{index}]")

/-- The loop over the areas. -/
def areaRows : List Json → Nat → List String → Except LifeError (List Json)
  | [], _, _ => .ok []
  | area :: areas, index, names => do
      let (name, row) ← areaRow area index names
      let rows ← areaRows areas (index + 1) (name :: names)
      return .obj row :: rows

/-- `mine.areas`, checked. -/
def mineAreas (mine : JsonObject) : Except LifeError (List Json) :=
  match listOr mine "areas" with
  | some areas =>
      if areas.length ≤ maxAreas then areaRows areas 0 [] else .error (.shape "mine.areas")
  | none => .error (.shape "mine.areas")

/-- The points of `mine.containers`, from this index on. -/
def containerRows (containers : List Json) (index : Nat) : Except LifeError (List Json) :=
  (containers.zipIdx index).mapM fun (item, index) => point (some item) s!"mine.containers[{index}]"

/-- `mine.containers`, checked. -/
def mineContainers (mine : JsonObject) : Except LifeError (List Json) :=
  match listOr mine "containers" with
  | some containers =>
      if containers.length ≤ maxContainers then containerRows containers 0
      else .error (.shape "mine.containers")
  | none => .error (.shape "mine.containers")

/-- `_mine`. -/
def mine (value : Json) : Except LifeError Json :=
  match value with
  | .obj mine => do
      let areas ← mineAreas mine
      let containers ← mineContainers mine
      return .obj [("areas", .arr areas), ("containers", .arr containers)]
  | _ => .error (.shape "mine")

/-- `home`, as it is kept. -/
def home (value : Json) : Except LifeError Json :=
  match value with
  | .obj home => do
      let home : JsonObject := home
      let pos ← point (home.get? "pos") "home.pos"
      let row ← optionalText home [("pos", pos)] "dimension" "home.dimension"
      let row ← optionalText home row "note" "home.note"
      return .obj row
  | _ => .error (.shape "home")

section Checks

variable (py : Python)

/-- A row of `relationships`. -/
def relationship (item : Json) (index : Nat) : Except LifeError Json :=
  match item with
  | .obj item => do
      let item : JsonObject := item
      if pyStrip (strOr py item "player" "") = "" then throw (.shape s!"relationships[{index}]")
      let player ← text (item.get? "player") s!"relationships[{index}].player"
      let row ← optionalText item [("player", .str player)] "note" s!"relationships[{index}].note"
      return .obj row
  | _ => .error (.shape s!"relationships[{index}]")

def relationships (value : Json) : Except LifeError Json :=
  match value with
  | .arr items =>
      if items.length ≤ maxRelationships then
        (items.zipIdx.mapM fun (item, index) => relationship py item index).map .arr
      else .error (.shape "relationships")
  | _ => .error (.shape "relationships")

/-- `(profile.get("mine") or {}).get("areas") or []`, the mappings among them. -/
def areasOf (profile : JsonObject) : List JsonObject :=
  match profile.get? "mine" with
  | some (.obj mine) =>
      match Dict.get? mine "areas" with
      | some (.arr areas) => areas.filterMap fun
          | .obj area => some area
          | _ => none
      | _ => []
  | _ => []

/-- `item["name"]`, if it is a text. -/
def nameOf (area : JsonObject) : Option String :=
  match area.get? "name" with
  | some (.str name) => some name
  | _ => none

/-! ### Plans -/

/-- What `validate_plan` asks of a node itself. -/
def validHere (node : JsonObject) : Bool :=
  let composite := node.get? "kind" ∈ [some (.str "sequence"), some (.str "batch"),
    some (.str "choice")]
  let hashable := match node.get? "kind" with
    | some (.arr _) | some (.obj _) => false
    | _ => true
  let intent := match node.get? "intent" with
    | some (.str intent) => pyStrip intent ≠ ""
    | _ => false
  let repeats := match given? node "repeat" with
    | none => true
    | some (.obj fields) => ["again_when", "until"].all fun key =>
        match Dict.get? fields key with
        | none | some (.str _) | some (.obj _) => true
        | _ => false
    | some _ => false
  let timed := match node.get? "timeout_s" with
    | some (.int n) => 0 < n
    | some (.float q) => 0 < q
    | some (.bool b) => b
    | _ => false
  let waits := node.get? "kind" ≠ some (.str "wait") || timed
  let bodied := node.get? "kind" ≠ some (.str "batch") || (node.get? "body").isSome
  hashable && (!composite || intent) && (given? node "interrupt_when").isNone && repeats
    && waits && bodied

/-- An iterable without elements. -/
def isEmptyIterable : Json → Bool
  | .str text => text = ""
  | .obj fields => fields.isEmpty
  | _ => false

mutual

/-- `require_composite_intent` and `visit`, for a node. -/
def validNode : Json → Bool
  | .obj fields => validHere fields && validFields (Dict.get? fields "kind") fields
  | _ => false

/-- For the children among the fields of a node. -/
def validFields (kind : Option Json) : List (String × Json) → Bool
  | [] => true
  | (key, .arr xs) :: rest =>
      (if kind = some (.str "sequence") ∧ key = "steps" then validList xs
        else if kind = some (.str "choice") ∧ key = "options" then validOptions xs
        else !(kind = some (.str "batch") && key == "body")) && validFields kind rest
  | (key, value) :: rest =>
      (if kind = some (.str "sequence") ∧ key = "steps" ∨
          kind = some (.str "choice") ∧ key = "options" then isEmptyIterable value
        else if kind = some (.str "batch") ∧ key = "body" then validNode value
        else true) && validFields kind rest

def validList : List Json → Bool
  | [] => true
  | x :: xs => validNode x && validList xs

def validOptions : List Json → Bool
  | [] => true
  | .obj option :: options =>
      (Dict.get? option "id").isSome && (Dict.get? option "work").isSome
        && validWork option && validOptions options
  | _ :: _ => false

def validWork : List (String × Json) → Bool
  | [] => true
  | (key, value) :: rest => (if key = "work" then validNode value else true) && validWork rest

end

/-- `normalize_project`. The plan of a project is its work under a goal and a
time limit that `validate_plan` accepts. -/
def normalizeProject (project : Json) (profile : JsonObject) : Except LifeError JsonObject :=
  match project with
  | .obj project => do
      let project : JsonObject := project
      let projectId := strOr py project "id" ""
      if !isProjectId projectId then throw .projectId
      let intent ← text (project.get? "intent") s!"{projectId}.intent"
      let status := strOr py project "status" "active"
      if status ∉ ["active", "paused", "done"] then throw (.status projectId)
      let out ← optionalText project
        [("id", .str projectId), ("intent", .str intent), ("status", .str status)] "note"
        s!"{projectId}.note"
      let area := strOr py project "area" ""
      if area ∉ (areasOf profile).filterMap nameOf then throw (.noArea projectId area)
      match project.get? "work" with
      | some (.obj work) =>
          if pyStrip (strOr py work "intent" "") = "" then throw (.noWorkIntent projectId)
          if !validNode (.obj work) then throw (.invalidWork projectId)
          return (out.set "area" (.str area)).set "work" (.obj work)
      | _ => throw (.noWork projectId)
  | _ => .error (.shape "project")

/-- A field of the profile, checked. -/
def keepField (profile out : JsonObject) (key : String) (check : Json → Except LifeError Json) :
    Except LifeError JsonObject :=
  match given? profile key with
  | none => .ok out
  | some value => (check value).map fun value => out.set key value

/-- The fields of a profile other than the projects, checked. -/
def normalizeFields (profile : JsonObject) : Except LifeError JsonObject := do
  let out ← keepField profile [] "home" home
  let out ← keepField profile out "mine" mine
  let out ← keepField profile out "routine" fun value => (text (some value) "routine").map .str
  let out ← keepField profile out "personality" fun value =>
    (text (some value) "personality").map .str
  keepField profile out "relationships" (relationships py)

/-- `normalize_profile`. -/
def normalizeProfile (profile : JsonObject) : Except LifeError JsonObject := do
  let out ← normalizeFields py profile
  match given? profile "projects" with
  | none => return out
  | some (.arr projects) =>
      let rows ← projects.mapM fun item => normalizeProject py item (Dict.update profile out)
      return out.set "projects" (.arr (rows.map .obj))
  | some _ => throw (.shape "projects")

end Checks

/-! ## The write boundary -/

abbrev Point := Rat × Rat × Rat

/-- `float(value)`, of a number. -/
def asFloat (py : Python) : Json → Rat
  | .int n => py.float n
  | .float q => q
  | _ => 0

/-- Three numbers. -/
def triple (py : Python) : List Json → Option Point
  | [x, y, z] =>
      if isNumber x ∧ isNumber y ∧ isNumber z then some (asFloat py x, asFloat py y, asFloat py z)
      else none
  | _ => none

/-- The numbers under `x`, `y` and `z`. -/
def axes (py : Python) (fields : JsonObject) : Option Point := do
  let x ← fields.get? "x"
  let y ← fields.get? "y"
  let z ← fields.get? "z"
  triple py [x, y, z]

section Boundary

variable (py : Python)

mutual

/-- `_points`. -/
def points : Json → List Point
  | .arr xs => match triple py xs with
      | some point => [point]
      | none => pointsList xs
  | .obj fields => (axes py fields).toList ++ pointsFields fields
  | _ => []

def pointsList : List Json → List Point
  | [] => []
  | x :: xs => points x ++ pointsList xs

def pointsFields : List (String × Json) → List Point
  | [] => []
  | (_, value) :: rest => points value ++ pointsFields rest

end

mutual

/-- `_calls`. -/
def calls : Json → List JsonObject
  | .obj fields =>
      (if Dict.get? fields "kind" = some (.str "call") then [fields] else []) ++ callsFields fields
  | .arr xs => callsList xs
  | _ => []

def callsList : List Json → List JsonObject
  | [] => []
  | x :: xs => calls x ++ callsList xs

def callsFields : List (String × Json) → List JsonObject
  | [] => []
  | (_, value) :: rest => calls value ++ callsFields rest

end

/-- The tools, and of them those that change blocks of the world. -/
structure Registry where
  names : List String
  writesBlocks : String → Bool

/-- `is_world_write`. -/
def Registry.isWorldWrite (registry : Registry) (tool : String) : Bool :=
  tool ∈ registry.names && registry.writesBlocks tool

/-- `project_write_points`, in the order of `_calls`. -/
def projectWritePoints (registry : Registry) (work : Json) : List (String × Point) :=
  (calls work).flatMap fun call =>
    let tool := strOr py call "tool" ""
    if registry.isWorldWrite tool then
      (points py ((call.get? "arguments").getD .null)).map fun point => (tool, point)
    else []

/-- The number a corner has on an axis. -/
def cornerAt (area : JsonObject) (key : String) (axis : Nat) : Rat :=
  match area.get? key with
  | some (.arr corner) =>
      match corner[axis]? with
      | some (.int n) => n
      | some (.float q) => q
      | _ => 0
  | _ => 0

def low (area : JsonObject) (axis : Nat) : Rat :=
  min (cornerAt area "from" axis) (cornerAt area "to" axis)

def high (area : JsonObject) (axis : Nat) : Rat :=
  max (cornerAt area "from" axis) (cornerAt area "to" axis)

/-- `inside_area`, of an area whose corners are points. -/
def insideArea (point : Point) (area : JsonObject) : Bool :=
  [(0, point.1), (1, point.2.1), (2, point.2.2)].all fun (axis, value) =>
    low area axis ≤ value && value ≤ high area axis + 1

/-- The area of that name. -/
def areaNamed (profile : JsonObject) (name : String) : Option JsonObject :=
  (areasOf profile).find? fun area => nameOf area = some name

/-- `check_write`. -/
def checkWrite (registry : Registry) (project profile : JsonObject) : Except LifeError Unit := do
  let projectId := strOr py project "id" ""
  let work := (project.get? "work").getD .null
  let unknown := ((calls work).map fun call => pyStr py ((call.get? "tool").getD .null)).filter
    (· ∉ registry.names)
  if unknown ≠ [] then throw (.unregistered projectId unknown)
  match areaNamed profile (strOr py project "area" "") with
  | none => throw (.noArea projectId (strOr py project "area" ""))
  | some area =>
      match (projectWritePoints py registry work).find? fun write => !insideArea write.2 area with
      | some (tool, point) =>
          throw (.outsideArea projectId tool point (strOr py project "area" ""))
      | none => return ()

end Boundary

/-! ## The store -/

/-- The file's value. -/
structure LifeRecord where
  revision : Int
  profile : JsonObject
  changes : List Json
deriving DecidableEq

/-- What is read where there is no file. -/
def LifeRecord.empty : LifeRecord := ⟨0, [], []⟩

def LifeRecord.toJson (record : LifeRecord) : Json :=
  .obj [("revision", .int record.revision), ("profile", .obj record.profile),
    ("changes", .arr record.changes)]

def maxProfileChars : Nat := 64000

def keptChanges : Nat := 20

/-- Who writes, why and when. -/
structure Note where
  expectedRevision : Int
  reason : String
  author : String
  now : String

/-- A write of the profile. -/
inductive LifeCall where
  | update (changes : JsonObject) (note : Note)
  | updateProject (operation : String) (project : JsonObject) (note : Note)

section Store

variable (py : Python) (registry : Registry)

/-- `_check_revision`. -/
def checkRevision (record : LifeRecord) (expected : Int) : Except LifeError Unit :=
  if expected = record.revision then .ok () else .error (.revision record.revision expected)

/-- `_commit`: the value that is written. -/
def commit (record : LifeRecord) (profile : JsonObject) (note : Note) :
    Except LifeError LifeRecord :=
  let reason := pyStrip note.reason
  if reason = "" then .error .noReason
  else
    let revision := record.revision + 1
    let change : Json := .obj [("revision", .int revision), ("at", .str note.now),
      ("author", .str note.author), ("reason", .str (.ofList (reason.toList.take maxTextChars)))]
    let changes := record.changes ++ [change]
    let value : LifeRecord := ⟨revision, profile, changes.drop (changes.length - keptChanges)⟩
    if maxProfileChars < py.encodedLength value.toJson then .error .tooLong else .ok value

/-- `PROFILE_FIELDS`. -/
def profileFields : List String := ["home", "mine", "routine", "relationships", "personality"]

/-- The profile with the changes made. -/
def applyChanges (profile changes : JsonObject) : JsonObject :=
  changes.foldl (fun profile change =>
    match change.2 with
    | .null => profile.pop change.1
    | value => profile.set change.1 value) profile

/-- `update`. -/
def update (record : LifeRecord) (changes : JsonObject) (note : Note) :
    Except LifeError LifeRecord := do
  let unknown := (changes.map Prod.fst).filter (· ∉ profileFields)
  if unknown ≠ [] then throw (.unknownFields unknown)
  if changes.isEmpty then throw .noChanges
  checkRevision record note.expectedRevision
  let profile ← normalizeProfile py (applyChanges record.profile changes)
  commit py record profile note

/-- `profile.get("projects") or []`. -/
def projectsOf (profile : JsonObject) : List JsonObject :=
  match profile.get? "projects" with
  | some (.arr projects) => projects.filterMap fun
      | .obj project => some project
      | _ => none
  | _ => []

/-- `item.get("id") == project_id`. -/
def hasId (projectId : String) (project : JsonObject) : Bool :=
  project.get? "id" = some (.str projectId)

/-- The fields given, over those of the project it replaces. -/
def mergedProject (profile project : JsonObject) (projectId : String) : JsonObject :=
  Dict.update (((projectsOf profile).find? (hasId projectId)).getD [])
    (project.filter fun field => field.2 ≠ .null)

/-- The projects after an operation on one of them. -/
def changedProjects (profile : JsonObject) (operation : String) (project : JsonObject)
    (projectId : String) : Except LifeError (List JsonObject) :=
  let others := (projectsOf profile).filter fun item => !hasId projectId item
  if operation = "upsert" then do
    let checked ← normalizeProject py (.obj (mergedProject profile project projectId)) profile
    checkWrite py registry checked profile
    let position := ((projectsOf profile).findIdx? (hasId projectId)).getD others.length
    return others.insertIdx position checked
  else if others.length = (projectsOf profile).length then .error (.noProject projectId)
  else .ok others

/-- `profile["projects"] = projects`, or no such key. -/
def withProjects (profile : JsonObject) (projects : List JsonObject) : JsonObject :=
  if projects.isEmpty then profile.pop "projects"
  else profile.set "projects" (.arr (projects.map .obj))

/-- `update_project`. -/
def updateProject (record : LifeRecord) (operation : String) (project : JsonObject)
    (note : Note) : Except LifeError LifeRecord := do
  if operation ∉ ["upsert", "remove"] then throw .operation
  let projectId := strOr py project "id" ""
  if !isProjectId projectId then throw .projectId
  checkRevision record note.expectedRevision
  let projects ← changedProjects py registry record.profile operation project projectId
  if maxProjects < projects.length then throw .tooManyProjects
  let profile ← normalizeProfile py (withProjects record.profile projects)
  commit py record profile note

/-- A write: what it answers, and the file after it. -/
def step (record : LifeRecord) (call : LifeCall) : Except LifeError LifeRecord × LifeRecord :=
  let result := match call with
    | .update changes note => update py record changes note
    | .updateProject operation project note =>
        updateProject py registry record operation project note
  match result with
  | .ok record' => (.ok record', record')
  | .error e => (.error e, record)

end Store

end LifeProfile

end MineBot
