import MineBot.Dict

/-!
# JSON values as Python holds them

What `json.loads` yields and `json.dumps` takes back: integers apart
from floats, booleans apart from both, objects as dictionaries. A float
is the rational it denotes; the non-finite ones, which JSON itself does
not have, are left out. Nothing in the program depends on the order of
an object's keys, which `_json_dump` sorts.

Equality in Python crosses the number types (`True == 1 == 1.0`) and
ignores key order. `Json.pyEq` is that equality, by comparing canonical
forms; the plain `=` of this type is the finer one that also sees
types, as `type(x) is int` does.
-/

namespace MineBot

inductive Json where
  | null
  | bool (b : Bool)
  | int (n : Int)
  | float (q : Rat)
  | str (s : String)
  | arr (xs : List Json)
  | obj (fields : List (String × Json))
deriving Repr, Inhabited

/-- A decoded JSON object. -/
abbrev JsonObject := Dict String Json

namespace Json

/-! ## Decidable equality -/

mutual

def beq : Json → Json → Bool
  | .null, .null => true
  | .bool a, .bool b => a == b
  | .int a, .int b => a == b
  | .float a, .float b => a == b
  | .str a, .str b => a == b
  | .arr a, .arr b => beqList a b
  | .obj a, .obj b => beqFields a b
  | _, _ => false

def beqList : List Json → List Json → Bool
  | [], [] => true
  | a :: as, b :: bs => beq a b && beqList as bs
  | _, _ => false

def beqFields : List (String × Json) → List (String × Json) → Bool
  | [], [] => true
  | (k, a) :: as, (l, b) :: bs => k == l && beq a b && beqFields as bs
  | _, _ => false

end

mutual

theorem beq_iff : ∀ a b : Json, beq a b = true ↔ a = b
  | .null, b => by cases b <;> simp [beq]
  | .bool _, b => by cases b <;> simp [beq]
  | .int _, b => by cases b <;> simp [beq]
  | .float _, b => by cases b <;> simp [beq]
  | .str _, b => by cases b <;> simp [beq]
  | .arr as, b => by cases b <;> simp [beq, beqList_iff as]
  | .obj as, b => by cases b <;> simp [beq, beqFields_iff as]

theorem beqList_iff : ∀ as bs : List Json, beqList as bs = true ↔ as = bs
  | [], bs => by cases bs <;> simp [beqList]
  | a :: as, bs => by
      cases bs <;> simp [beqList, beq_iff a, beqList_iff as]

theorem beqFields_iff :
    ∀ as bs : List (String × Json), beqFields as bs = true ↔ as = bs
  | [], bs => by cases bs <;> simp [beqFields]
  | (k, a) :: as, bs => by
      rcases bs with _ | ⟨⟨l, b⟩, bs⟩ <;>
        simp [beqFields, beq_iff a, beqFields_iff as, and_assoc]

end

instance : DecidableEq Json := fun a b => decidable_of_iff _ (beq_iff a b)

/-! ## Python's equality -/

/-- Insert a field into fields sorted by key. -/
def insertField (k : String) (v : Json) :
    List (String × Json) → List (String × Json)
  | [] => [(k, v)]
  | (l, w) :: rest =>
      if k < l then (k, v) :: (l, w) :: rest else (l, w) :: insertField k v rest

mutual

/-- The canonical form: every number as a rational, every object sorted
by key. -/
def canon : Json → Json
  | .null => .null
  | .bool b => .float (if b then 1 else 0)
  | .int n => .float n
  | .float q => .float q
  | .str s => .str s
  | .arr xs => .arr (canonList xs)
  | .obj fields => .obj (canonFields fields)

def canonList : List Json → List Json
  | [] => []
  | x :: xs => canon x :: canonList xs

def canonFields : List (String × Json) → List (String × Json)
  | [] => []
  | (k, v) :: rest => insertField k (canon v) (canonFields rest)

end

/-- `a == b` in Python. -/
def pyEq (a b : Json) : Bool := decide (a.canon = b.canon)

theorem pyEq_iff {a b : Json} : pyEq a b = true ↔ a.canon = b.canon := by
  simp [pyEq]

@[simp] theorem pyEq_refl (a : Json) : pyEq a a = true := by simp [pyEq]

/-- Values equal in Python are equal to the same values. -/
theorem pyEq_congr {a b c : Json} (h : pyEq a b = true) : pyEq c a = pyEq c b := by
  simp only [pyEq, pyEq_iff.mp h]

/-! ## Truth and conversions -/

/-- `bool(x)`. -/
def truthy : Json → Bool
  | .null => false
  | .bool b => b
  | .int n => decide (n ≠ 0)
  | .float q => decide (q ≠ 0)
  | .str s => decide (s ≠ "")
  | .arr xs => !xs.isEmpty
  | .obj fields => !fields.isEmpty

/-- `isinstance(x, int)`, with the value: a Python `bool` is an `int`. -/
def isInt? : Json → Option Int
  | .int n => some n
  | .bool b => some (if b then 1 else 0)
  | _ => none

end Json

end MineBot
