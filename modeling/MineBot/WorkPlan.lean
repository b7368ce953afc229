import MineBot.Json
import MineBot.Text

/-!
# Work plans

The tree of `minebot-work/0.2` as the executor reads it: calls, waits,
sequences, batches and choices, each with an optional id. A node keeps the
fields nobody reads (its intent, the text of the next call) in `fields`,
because its signature is taken of the whole node.

The signature stands for the text that `json.dumps` makes with sorted keys:
it is the value itself with its keys sorted.
-/

namespace MineBot

namespace WorkRuntime

/-! ## Nodes -/

/-- What every kind of node may have. -/
structure NodeHead where
  id : Option String
  when : Option Json
  timeoutS : Option Rat
  fields : JsonObject

inductive WorkNode where
  | call (head : NodeHead) (tool : String) (arguments : Json)
  | wait (head : NodeHead) (condition : Json)
  | sequence (head : NodeHead) (steps : List WorkNode)
  | batch (head : NodeHead) (adaptive : Bool) (items : List Json) (body : WorkNode)
  | choice (head : NodeHead) (fromRuntime : Bool) (options : List (String × WorkNode))

namespace WorkNode

def head : WorkNode → NodeHead
  | .call head .. | .wait head .. | .sequence head .. | .batch head .. | .choice head .. => head

def isCall : WorkNode → Bool
  | .call .. => true
  | _ => false

def withId (id : Option String) : WorkNode → WorkNode
  | .call head tool arguments => .call { head with id } tool arguments
  | .wait head condition => .wait { head with id } condition
  | .sequence head steps => .sequence { head with id } steps
  | .batch head adaptive items body => .batch { head with id } adaptive items body
  | .choice head fromRuntime options => .choice { head with id } fromRuntime options

/-- `child["id"] = f"{child['id']}__item_{index}"`. -/
def forItem (index : Nat) (node : WorkNode) : WorkNode :=
  node.withId (node.head.id.map fun id => s!"{id}__item_{index}")

mutual

/-- The `namespace` of an interrupt handler: each id gets the prefix. -/
def namespaced (pre : String) : WorkNode → WorkNode
  | .call head tool arguments => .call { head with id := head.id.map (pre ++ ·) } tool arguments
  | .wait head condition => .wait { head with id := head.id.map (pre ++ ·) } condition
  | .sequence head steps =>
      .sequence { head with id := head.id.map (pre ++ ·) } (namespacedList pre steps)
  | .batch head adaptive items body =>
      .batch { head with id := head.id.map (pre ++ ·) } adaptive items (namespaced pre body)
  | .choice head fromRuntime options =>
      .choice { head with id := head.id.map (pre ++ ·) } fromRuntime (namespacedOptions pre options)

def namespacedList (pre : String) : List WorkNode → List WorkNode
  | [] => []
  | node :: nodes => namespaced pre node :: namespacedList pre nodes

def namespacedOptions (pre : String) : List (String × WorkNode) → List (String × WorkNode)
  | [] => []
  | (id, node) :: options => (id, namespaced pre node) :: namespacedOptions pre options

end

end WorkNode

/-- A plan, with the handler of its `interrupt_when`. -/
structure WorkPlan where
  timeoutS : Rat
  work : WorkNode
  handler : Option WorkNode

/-! ## Signatures -/

def headFields (kind : String) (head : NodeHead) : List (String × Json) :=
  [("kind", .str kind)] ++ (head.id.map fun id => ("id", Json.str id)).toList
    ++ (head.when.map (("when", ·))).toList
    ++ (head.timeoutS.map fun seconds => ("timeout_s", Json.float seconds)).toList ++ head.fields

mutual

/-- The node as the dictionary it is. -/
def WorkNode.toJson : WorkNode → Json
  | .call head tool arguments =>
      .obj (headFields "call" head ++ [("tool", .str tool), ("arguments", arguments)])
  | .wait head condition => .obj (headFields "wait" head ++ [("condition", condition)])
  | .sequence head steps => .obj (headFields "sequence" head ++ [("steps", .arr (toJsonList steps))])
  | .batch head adaptive items body =>
      .obj (headFields "batch" head ++ [("order", .str (if adaptive then "adaptive" else "listed")),
        ("items", .arr items), ("body", body.toJson)])
  | .choice head fromRuntime options =>
      .obj (headFields "choice" head ++ [("source", .str (if fromRuntime then "runtime" else "author")),
        ("options", .arr (toJsonOptions options))])

def toJsonList : List WorkNode → List Json
  | [] => []
  | node :: nodes => node.toJson :: toJsonList nodes

def toJsonOptions : List (String × WorkNode) → List Json
  | [] => []
  | (id, node) :: options =>
      .obj [("id", .str id), ("work", node.toJson)] :: toJsonOptions options

end

mutual

/-- `_obligation_value`, with the keys of each object sorted. -/
def obligationValue : Json → Json
  | .arr xs => .arr (obligationList xs)
  | .obj fields => .obj (obligationFields fields)
  | value => value

def obligationList : List Json → List Json
  | [] => []
  | x :: xs => obligationValue x :: obligationList xs

def obligationFields : List (String × Json) → List (String × Json)
  | [] => []
  | (key, value) :: rest =>
      if key ∈ ["intent", "_runtime", "next_call"] then obligationFields rest
      else Json.insertField key (obligationValue value) (obligationFields rest)

end

/-- `_node_signature`. -/
def nodeSignature (node : WorkNode) : Json := obligationValue node.toJson

/-- `_legacy_node_key`, for a digest of signatures. -/
def legacyNodeKey (digest : Json → String) (signature : Json) (occurrence : Nat) : String :=
  s!"legacy:{digest signature}:{occurrence}"

/-! ## References -/

/-- The path of a reference, from a value on. -/
def follow : Json → List String → Option Json
  | current, [] => some current
  | .obj fields, part :: parts => (Dict.get? fields part).bind fun value => follow value parts
  | _, _ :: _ => none

/-- What a reference names. -/
def lookupRef (results : JsonObject) (item state : Json) (ref : String) : Option Json :=
  match (ref.toList.splitOn '.').map String.ofList with
  | ["item"] => some item
  | "item" :: parts => follow item parts
  | parts => follow (.obj (Dict.update [("state", state), ("result", .obj results)] results)) parts

mutual

/-- `_resolve_ref`. -/
def resolveRef (results : JsonObject) (item state : Json) : Json → Option Json
  | .obj [("ref", ref)] =>
      match ref with
      | .str ref => if ref = "" then none else lookupRef results item state ref
      | _ => none
  | .obj fields => (resolveFields results item state fields).map .obj
  | .arr xs => (resolveList results item state xs).map .arr
  | value => some value

def resolveList (results : JsonObject) (item state : Json) : List Json → Option (List Json)
  | [] => some []
  | x :: xs => do
      let value ← resolveRef results item state x
      let values ← resolveList results item state xs
      return value :: values

def resolveFields (results : JsonObject) (item state : Json) :
    List (String × Json) → Option (List (String × Json))
  | [] => some []
  | (key, x) :: fields => do
      let value ← resolveRef results item state x
      let values ← resolveFields results item state fields
      return (key, value) :: values

end

/-! ## Answers -/

inductive ConditionStatus where
  | satisfied
  | pending
  | unknown
deriving DecidableEq

/-- How many questions a condition asks. -/
def requirementCount (condition : Json) : Nat :=
  match condition with
  | .obj fields =>
      match Dict.get? fields "requires" with
      | some (.arr (x :: xs)) => (x :: xs).length
      | _ => 1
  | _ => 1

/-- `_condition`, from the answers to its questions: the first `pending` ends it. -/
def conditionStatus : Nat → List String → ConditionStatus
  | 0, _ => .satisfied
  | n + 1, answers =>
      match answers.head? with
      | some "pending" => .pending
      | some "satisfied" => conditionStatus n answers.tail
      | _ => if conditionStatus n answers.tail = .pending then .pending else .unknown

/-- `value.get(key)` along a path of dictionaries. -/
def textAt (value : Json) (parts : List String) : Option String :=
  match follow value parts with
  | some (.str text) => some text
  | _ => none

/-- The choice that came with the result of a call. -/
def handoffChoice (result : JsonObject) : Option String :=
  match Dict.get? result "_supervision_handoff" with
  | none | some .null => textAt (.obj result)
      ["metrics", "direct_call_handoff", "facts", "decision", "choice"]
  | some handoff => textAt handoff ["facts", "decision", "choice"]

/-- The result without its private fields. -/
def publicResult (result : JsonObject) : JsonObject :=
  (Dict.pop result "_execution").pop "_supervision_handoff"

/-- The mark of a delivered effect: `_execution` says so. -/
def deliveredMark (tool : String) (result : JsonObject) : Option Json :=
  match Dict.get? result "_execution" with
  | some (.obj execution) =>
      if Dict.get? execution "delivered" = some (.bool true) then
        some (.obj [("tool", (Dict.get? execution "tool").getD (.str tool)),
          ("execution_channel", .bool true)])
      else none
  | _ => none

end WorkRuntime

end MineBot
