import MineBot.Text

/-!
# Principals and the admission matrix

`principals.py`: who a sender is, how far it is trusted, and what it may
ask for. Without owner names a registry is open and admits everything.

A store keeps the records under their ids, so it is the list of its records.
`trustOf` is the trust assignment that a registry stands for; resolving a
sender writes a record and leaves that assignment as it is.
-/

namespace MineBot

namespace Principals

inductive TrustTier where
  | owner
  | friend
  | stranger
deriving DecidableEq

inductive PrincipalKind where
  | player
  | operator
  | system
deriving DecidableEq

inductive AdmissionCapability where
  | converse
  | startWork
  | controlWork
  | controlProcess
deriving DecidableEq

/-- `OPERATOR_PRINCIPAL_ID`. -/
def operatorPrincipalId : String := "@operator"

structure PrincipalRecord where
  principalId : String
  kind : PrincipalKind
  trust : TrustTier
deriving DecidableEq

/-- An entry of `_MATRIX`. -/
inductive Verdict where
  | allowed
  | denied
  /-- `_OWN_WORK_ONLY` -/
  | ownWorkOnly
deriving DecidableEq

/-- `_MATRIX`. -/
def matrix : TrustTier → AdmissionCapability → Verdict
  | .owner, _ => .allowed
  | .friend, .converse | .friend, .startWork => .allowed
  | .friend, .controlWork => .ownWorkOnly
  | .friend, .controlProcess => .denied
  | .stranger, .converse => .allowed
  | .stranger, _ => .denied

def TrustTier.value : TrustTier → String
  | .owner => "owner"
  | .friend => "friend"
  | .stranger => "stranger"

structure AdmissionDecision where
  allowed : Bool
  capability : AdmissionCapability
  principal : PrincipalRecord
  reason : String
deriving DecidableEq

structure PrincipalRegistry where
  owners : List String
  friends : List String
  /-- the records of the store -/
  store : List PrincipalRecord
  defaultTrust : TrustTier

namespace PrincipalRegistry

variable (registry : PrincipalRegistry)

def enforcing : Bool := !registry.owners.isEmpty

/-- `_configured_trust`. -/
def configuredTrust (name : String) : TrustTier :=
  if name ∈ registry.owners then .owner
  else if name ∈ registry.friends then .friend
  else registry.defaultTrust

/-- `self.store.get(name)`. -/
def get (name : String) : Option PrincipalRecord :=
  registry.store.find? fun record => record.principalId = name

/-- `resolve`. -/
def resolve (sender : String) : PrincipalRecord × PrincipalRegistry :=
  let name := pyStrip sender
  if name = "" then (⟨operatorPrincipalId, .operator, .owner⟩, registry)
  else
    match registry.get name with
    | some existing => (existing, registry)
    | none =>
        let record : PrincipalRecord := ⟨name, .player, registry.configuredTrust name⟩
        (record, { registry with store := registry.store ++ [record] })

/-- The decision on a resolved principal. -/
def decision (capability : AdmissionCapability) (principal : PrincipalRecord)
    (workOwnerId : Option String) : AdmissionDecision :=
  if !registry.enforcing then ⟨true, capability, principal, "admission_open"⟩
  else
    match matrix principal.trust capability with
    | .allowed => ⟨true, capability, principal, "trusted"⟩
    | .denied => ⟨false, capability, principal, s!"{principal.trust.value}_not_permitted"⟩
    | .ownWorkOnly =>
        if workOwnerId = some principal.principalId then ⟨true, capability, principal, "own_work"⟩
        else ⟨false, capability, principal, "not_work_owner"⟩

/-- `evaluate`, and the registry with the sender resolved. -/
def evaluate (capability : AdmissionCapability) (sender : String) (workOwnerId : Option String) :
    AdmissionDecision × PrincipalRegistry :=
  (registry.decision capability (registry.resolve sender).1 workOwnerId,
    (registry.resolve sender).2)

/-! ## The trust assignment -/

/-- The trust of a name: the store's, or the configured one. -/
def trustOf (name : String) : TrustTier :=
  match registry.get name with
  | some record => record.trust
  | none => registry.configuredTrust name

/-- The id a sender has as a principal. -/
def principalId (sender : String) : String :=
  if pyStrip sender = "" then operatorPrincipalId else pyStrip sender

/-- The tier of a sender. -/
def tierOf (sender : String) : TrustTier :=
  if pyStrip sender = "" then .owner else registry.trustOf (pyStrip sender)

/-- The other registry makes the same assignment. -/
structure SameTrust (registry registry' : PrincipalRegistry) : Prop where
  enforcing : registry'.enforcing = registry.enforcing
  trustOf : ∀ name, registry'.trustOf name = registry.trustOf name

variable {registry} {registry' : PrincipalRegistry} {name sender : String}
variable {capability : AdmissionCapability} {owner : Option String}

theorem SameTrust.refl (registry : PrincipalRegistry) : SameTrust registry registry :=
  ⟨rfl, fun _ => rfl⟩

theorem SameTrust.trans {third : PrincipalRegistry} (h : SameTrust registry registry')
    (h' : SameTrust registry' third) : SameTrust registry third :=
  ⟨h'.enforcing.trans h.enforcing, fun name => (h'.trustOf name).trans (h.trustOf name)⟩

theorem SameTrust.tierOf (h : SameTrust registry registry') (sender : String) :
    registry'.tierOf sender = registry.tierOf sender := by
  unfold PrincipalRegistry.tierOf
  rw [h.trustOf]

theorem principalId_of_get {record : PrincipalRecord} (h : registry.get name = some record) :
    record.principalId = name := by
  have hid := List.find?_some h
  exact of_decide_eq_true hid

/-- A sender is resolved to its id and its tier. -/
theorem resolve_record (registry : PrincipalRegistry) (sender : String) :
    (registry.resolve sender).1.principalId = principalId sender ∧
      (registry.resolve sender).1.trust = registry.tierOf sender := by
  unfold resolve principalId tierOf
  by_cases hname : pyStrip sender = ""
  · simp [hname]
  · simp only [if_neg hname]
    cases hget : registry.get (pyStrip sender) with
    | none => simp [trustOf, hget]
    | some record => simp [trustOf, hget, principalId_of_get hget]

/-- Resolving a sender leaves the trust assignment as it is. -/
theorem resolve_sameTrust (registry : PrincipalRegistry) (sender : String) :
    SameTrust registry (registry.resolve sender).2 := by
  unfold resolve
  by_cases hname : pyStrip sender = ""
  · simp only [if_pos hname]
    exact .refl registry
  · simp only [if_neg hname]
    cases hget : registry.get (pyStrip sender) with
    | some record => exact .refl registry
    | none =>
        refine ⟨rfl, fun name => ?_⟩
        show trustOf { registry with store := registry.store ++ _ } name = registry.trustOf name
        unfold trustOf get
        rw [List.find?_append]
        cases hname' : registry.store.find? (fun record => record.principalId = name) with
        | some record => rfl
        | none =>
            by_cases hsame : pyStrip sender = name
            · simp [hsame, configuredTrust]
            · simp [hsame, configuredTrust]

theorem decision_principal {principal : PrincipalRecord} :
    (registry.decision capability principal owner).principal = principal := by
  unfold decision
  split
  · rfl
  · split
    · rfl
    · rfl
    · split <;> rfl

/-- **What an enforcing registry admits**: what the matrix allows the
sender's tier, and of its own work what a friend may control. -/
theorem evaluate_allowed (henf : registry.enforcing = true) :
    (registry.evaluate capability sender owner).1.allowed = true ↔
      matrix (registry.tierOf sender) capability = .allowed ∨
        matrix (registry.tierOf sender) capability = .ownWorkOnly ∧
          owner = some (principalId sender) := by
  obtain ⟨hid, htrust⟩ := resolve_record registry sender
  rw [← htrust, ← hid]
  show (registry.decision capability (registry.resolve sender).1 owner).allowed = true ↔ _
  unfold decision
  simp only [henf, Bool.not_true]
  cases hm : matrix (registry.resolve sender).1.trust capability with
  | allowed => simp
  | denied => simp
  | ownWorkOnly =>
      by_cases howner : owner = some (registry.resolve sender).1.principalId
      · simp [howner]
      · simp [howner]

end PrincipalRegistry

end Principals

end MineBot
