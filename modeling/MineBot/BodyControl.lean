import Mathlib
import MineBot.History

/-!
# Who may own the Body

`app/body_control.py`: the claim on the physical Body and the record of its
native stop, driven from several threads. Each method runs under one lock, so a
run is a sequence of calls in any order. `invalidate_generation` takes no lock:
its increment and the listener it then calls are two calls of the run, and
the listener may bring a generation that is no longer the newest.

The clock readings (`since`, `at_monotonic`) decide nothing and are left out.

`Sane` is the invariant. The three results are about whole runs: a claim that
has lost the Body under a generation never has it back under that generation
(`owns_fenced`), the Body passes on only by way of a settlement (`owns_settled`),
and while a generation stays current nobody else was admitted and nothing was
stopped (`current_unbroken`).
-/

namespace MineBot

inductive BodyHolder where
  | none
  | agentCall
  | agentPlan
  | unknown
  | life
  | threat
deriving DecidableEq

inductive BodyStopState where
  | running
  | stopping
  | settled
  | unknown
deriving DecidableEq

namespace BodyHolder

def value : BodyHolder → String
  | none => "none"
  | agentCall => "agent_call"
  | agentPlan => "agent_plan"
  | unknown => "unknown"
  | life => "life"
  | threat => "threat"

/-- The holders that claim the Body: the agent's calls and plans, life and threat. -/
def claims (h : BodyHolder) : Prop := h ≠ none ∧ h ≠ unknown

instance decidableClaims (h : BodyHolder) : Decidable h.claims :=
  inferInstanceAs (Decidable (_ ∧ _))

end BodyHolder

/-- `BodyControlSnapshot`. -/
structure BodyControlSnapshot where
  holder : BodyHolder
  claimId : Option String
  generation : Nat
  stopState : BodyStopState
deriving DecidableEq

/-- `last_stop`, once it is written. -/
structure LastStop where
  nativeStopped : Bool
  reason : Option String := none
  generation : Nat
deriving DecidableEq

/-- `BodyControl`, with the generation of its `ProgressAuthority`. -/
structure BodyControl where
  authority : Nat
  holder : BodyHolder := .none
  claimId : Option String := none
  generation : Nat
  lastStop : Option LastStop := none
  stopState : BodyStopState := .settled

namespace BodyControl

/-- `__init__`, on an authority. -/
def init (authority : Nat) : BodyControl where
  authority := authority
  generation := authority

def snapshot (s : BodyControl) : BodyControlSnapshot where
  holder := s.holder
  claimId := s.claimId
  generation := s.generation
  stopState := s.stopState

/-- `self._claim_id not in {None, claim_id}`, when a claim is named. -/
def foreign (s : BodyControl) (claimId : Option String) : Bool :=
  match claimId, s.claimId with
  | some c, some held => held ≠ c
  | _, _ => false

/-- `authority.next_generation`. -/
def nextGeneration (s : BodyControl) : BodyControl := { s with authority := s.authority + 1 }

/-- `_on_generation_invalidated`. -/
def onGenerationInvalidated (s : BodyControl) (reason : String) (generation : Nat) :
    BodyControl :=
  if s.holder ∉ [.none, .unknown] then
    { s with
      generation := generation
      holder := .unknown
      stopState := .unknown
      lastStop := some ⟨false, some reason, generation⟩ }
  else { s with generation := generation }

/-- `claim`. -/
def claim (s : BodyControl) (claimId : String) (holder : BodyHolder) :
    Except String BodyControl :=
  if claimId = "" then .error "Body claim_id must be non-empty"
  else if s.stopState ∈ [.unknown, .stopping] then .error "body_control_unknown"
  else if s.holder ∉ [.none, .unknown] ∧ s.claimId ≠ some claimId then
    .error ("body_busy:" ++ (match s.claimId with
      | some held => if held = "" then s.holder.value else held
      | none => s.holder.value))
  else
    let s := if s.claimId ≠ some claimId ∨ s.holder = .none then
        { s.nextGeneration with generation := s.authority + 1 }
      else s
    .ok { s with holder := holder, claimId := some claimId, stopState := .running }

/-- `mark_stopping`. -/
def markStopping (s : BodyControl) (claimId : Option String) : BodyControl :=
  if s.foreign claimId then s
  else { s.nextGeneration with stopState := .stopping, generation := s.authority + 1 }

/-- `settle`. -/
def settle (s : BodyControl) (claimId : Option String) : BodyControl :=
  if s.foreign claimId then s
  else
    { s with holder := .none, claimId := none, stopState := .settled, generation := s.authority }

/-- `mark_unknown`. -/
def markUnknown (s : BodyControl) (claimId : Option String) : BodyControl :=
  if s.foreign claimId then s
  else
    { s with
      holder := .unknown
      stopState := .unknown
      lastStop := some ⟨false, some "confirmation_missing", s.generation⟩ }

/-- `confirm_native_stopped`. -/
def confirmNativeStopped (s : BodyControl) (nativeStopped : Bool) : BodyControl :=
  if nativeStopped then { s with lastStop := some ⟨true, none, s.generation⟩ }.settle none
  else s.markUnknown none

/-- `owns`. -/
def owns (s : BodyControl) (claimId : String) (generation : Option Nat) : Bool :=
  s.claimId = some claimId ∧ s.holder ∉ [.none, .unknown] ∧ s.stopState = .running ∧
    s.generation = s.authority ∧ generation.all (s.generation = ·)

end BodyControl

/-! ## Runs -/

inductive BodyCall where
  | claim (claimId : String) (holder : BodyHolder)
  | markStopping (claimId : Option String)
  | settle (claimId : Option String)
  | markUnknown (claimId : Option String)
  | confirmNativeStopped (nativeStopped : Bool)
  | owns (claimId : String) (generation : Option Nat)
  /-- `authority.next_generation`, and the increment of `invalidate_generation` -/
  | nextGeneration
  /-- `authority.generation_current` -/
  | generationCurrent (generation : Nat)
  | onGenerationInvalidated (reason : String) (generation : Nat)
deriving DecidableEq

inductive BodyReply where
  | snapshot (s : BodyControlSnapshot)
  | raised (error : String)
  | answer (b : Bool)
  | generation (n : Nat)
  | done
deriving DecidableEq

namespace BodyControl

/-- One call. -/
def step (s : BodyControl) : BodyCall → BodyReply × BodyControl
  | .claim claimId holder => match s.claim claimId holder with
      | .ok s' => (.snapshot s'.snapshot, s')
      | .error error => (.raised error, s)
  | .markStopping claimId =>
      (.snapshot (s.markStopping claimId).snapshot, s.markStopping claimId)
  | .settle claimId => (.snapshot (s.settle claimId).snapshot, s.settle claimId)
  | .markUnknown claimId => (.snapshot (s.markUnknown claimId).snapshot, s.markUnknown claimId)
  | .confirmNativeStopped b =>
      (.snapshot (s.confirmNativeStopped b).snapshot, s.confirmNativeStopped b)
  | .owns claimId generation => (.answer (s.owns claimId generation), s)
  | .nextGeneration => (.generation (s.authority + 1), s.nextGeneration)
  | .generationCurrent generation => (.answer (generation = s.authority), s)
  | .onGenerationInvalidated reason generation => (.done, s.onGenerationInvalidated reason generation)

/-- What the callers do: claims are made for a holder that claims, and a listener
is told a generation the authority has had. -/
def Admissible (s : BodyControl) : BodyCall → Prop
  | .claim _ holder => holder.claims
  | .onGenerationInvalidated _ generation => generation ≤ s.authority
  | _ => True

instance decidableAdmissible (s : BodyControl) (call : BodyCall) :
    Decidable (s.Admissible call) :=
  match call with
  | .claim _ holder => inferInstanceAs (Decidable holder.claims)
  | .onGenerationInvalidated _ generation => inferInstanceAs (Decidable (generation ≤ s.authority))
  | .markStopping _ | .settle _ | .markUnknown _ | .confirmNativeStopped _ | .owns _ _
  | .nextGeneration | .generationCurrent _ => .isTrue trivial

/-- The calls of all threads, in the order in which the lock is taken. -/
abbrev ControlRun (authority : Nat) :=
  Run step (fun _ s call => s.Admissible call) (init authority)

/-- The invariant. -/
structure Sane (s : BodyControl) : Prop where
  generation : s.generation ≤ s.authority
  unheld : s.holder = .none → s.claimId = none
  held : s.holder.claims → s.claimId.isSome
  running : s.stopState = .running → s.holder.claims
  settled : s.stopState = .settled → s.holder = .none

/-- What a call does to the Body and to the generations. -/
inductive Moves (s : BodyControl) : BodyCall → BodyControl → Prop
  | idle {call : BodyCall} : Moves s call s
  /-- the owner claims once more, perhaps for another holder -/
  | renew {claimId : String} {holder : BodyHolder} (claims : holder.claims)
      (running : s.stopState = .running) (same : s.claimId = some claimId) :
      Moves s (.claim claimId holder) { s with holder := holder }
  | take {claimId : String} {holder : BodyHolder} (claims : holder.claims)
      (settled : s.stopState = .settled) :
      Moves s (.claim claimId holder)
        { s with authority := s.authority + 1, generation := s.authority + 1, holder := holder
                 claimId := some claimId, stopState := .running }
  | stop {claimId : Option String} :
      Moves s (.markStopping claimId)
        { s with authority := s.authority + 1, generation := s.authority + 1
                 stopState := .stopping }
  | settle {call : BodyCall} {lastStop : Option LastStop}
      (settles : call = .confirmNativeStopped true ∨
        ∃ claimId, call = .settle claimId ∧ s.foreign claimId = false) :
      Moves s call
        { s with holder := .none, claimId := none, stopState := .settled
                 generation := s.authority, lastStop := lastStop }
  | lose {call : BodyCall} {generation : Nat} {lastStop : Option LastStop}
      (claimless : ∀ claimId holder, call ≠ .claim claimId holder)
      (known : generation ≤ s.authority) :
      Moves s call
        { s with holder := .unknown, stopState := .unknown, generation := generation
                 lastStop := lastStop }
  | advance : Moves s .nextGeneration { s with authority := s.authority + 1 }
  | relabel {reason : String} {generation : Nat} (unowned : ¬ s.holder.claims)
      (known : generation ≤ s.authority) :
      Moves s (.onGenerationInvalidated reason generation) { s with generation := generation }

variable {s s' : BodyControl} {call : BodyCall} {c c' : String} {g authority : Nat}

theorem init_sane (authority : Nat) : (init authority).Sane where
  generation := le_refl authority
  unheld _ := rfl
  held h := absurd rfl h.1
  running h := by cases h
  settled _ := rfl

theorem claims_iff {h : BodyHolder} : h ∉ [.none, .unknown] ↔ h.claims := by
  simp [BodyHolder.claims]

/-- A claim that is admitted renews the owner's or finds the Body settled. -/
theorem Sane.claim_moves (h : s.Sane) {holder : BodyHolder} (hclaims : holder.claims)
    (hclaim : s.claim c holder = .ok s') : Moves s (.claim c holder) s' := by
  unfold claim at hclaim
  split at hclaim
  · cases hclaim
  split at hclaim
  · cases hclaim
  next hstate =>
  split at hclaim
  · cases hclaim
  next hbusy =>
  obtain rfl := Except.ok.inj hclaim
  cases hstop : s.stopState with
  | running =>
      have hheld : s.holder.claims := h.running hstop
      have hsame : s.claimId = some c :=
        by_contra fun hother => hbusy ⟨claims_iff.mpr hheld, hother⟩
      rw [if_neg (by rw [hsame]; exact fun hor => hor.elim (absurd rfl) hheld.1), ← hsame, ← hstop]
      exact .renew hclaims hstop hsame
  | settled =>
      rw [if_pos (.inr (h.settled hstop))]
      exact .take hclaims hstop
  | stopping => exact absurd (by rw [hstop]; decide) hstate
  | unknown => exact absurd (by rw [hstop]; decide) hstate

/-- The step lemma: what a call that the callers make can do. -/
theorem Sane.moves (h : s.Sane) (hcall : s.Admissible call) : Moves s call (s.step call).2 := by
  cases call with
  | claim claimId holder =>
      simp only [step]
      cases hclaim : s.claim claimId holder with
      | ok s' => exact h.claim_moves hcall hclaim
      | error error => exact .idle
  | markStopping claimId =>
      simp only [step, markStopping]
      split
      · exact .idle
      · exact .stop
  | settle claimId =>
      simp only [step, settle]
      split
      · exact .idle
      · next hown => exact .settle (.inr ⟨claimId, rfl, Bool.eq_false_of_not_eq_true hown⟩)
  | markUnknown claimId =>
      simp only [step, markUnknown]
      split
      · exact .idle
      · exact .lose (fun _ _ hne => by cases hne) h.generation
  | confirmNativeStopped b =>
      cases b with
      | true => exact .settle (.inl rfl)
      | false => exact .lose (fun _ _ hne => by cases hne) h.generation
  | owns | generationCurrent => exact .idle
  | nextGeneration => exact .advance
  | onGenerationInvalidated reason generation =>
      simp only [step, onGenerationInvalidated]
      split
      · exact .lose (fun _ _ hne => by cases hne) hcall
      · next hholder => exact .relabel (fun hc => hholder (claims_iff.mpr hc)) hcall

theorem Moves.sane (h : Moves s call s') (hs : s.Sane) : s'.Sane := by
  cases h with
  | idle => exact hs
  | renew claims running same =>
      refine ⟨hs.generation, fun hnone => absurd hnone claims.1, fun _ => ?_, fun _ => claims, ?_⟩
      · rw [same]
        rfl
      · intro hsettled
        cases running.symm.trans hsettled
  | take claims settled =>
      refine ⟨le_refl _, fun hnone => absurd hnone claims.1, fun _ => rfl, fun _ => claims, ?_⟩
      intro hsettled
      cases hsettled
  | stop =>
      refine ⟨le_refl _, hs.unheld, hs.held, ?_, ?_⟩
      · intro hrunning
        cases hrunning
      · intro hsettled
        cases hsettled
  | settle =>
      refine ⟨le_refl _, fun _ => rfl, fun hclaims => absurd rfl hclaims.1, ?_, fun _ => rfl⟩
      intro hrunning
      cases hrunning
  | lose claimless known =>
      refine ⟨known, ?_, fun hclaims => absurd rfl hclaims.2, ?_, ?_⟩
      · intro hnone
        cases hnone
      · intro hrunning
        cases hrunning
      · intro hsettled
        cases hsettled
  | advance => exact ⟨Nat.le_succ_of_le hs.generation, hs.unheld, hs.held, hs.running, hs.settled⟩
  | relabel unowned known => exact ⟨known, hs.unheld, hs.held, hs.running, hs.settled⟩

theorem ControlRun.sane {log : List (BodyCall × BodyReply)} (h : ControlRun authority log s) :
    s.Sane :=
  h.invariant (P := fun _ s => s.Sane) (init_sane authority)
    fun _ _ _ _ hcall hs => (hs.moves hcall).sane hs

/-- Generations are never given back. -/
theorem Moves.authority_le (h : Moves s call s') : s.authority ≤ s'.authority := by
  cases h <;> simp

/-! ## Fencing -/

/-- The claim owns the Body under the generation. -/
structure OwnedBy (s : BodyControl) (c : String) (g : Nat) : Prop where
  claimId : s.claimId = some c
  running : s.stopState = .running
  generation : s.generation = g
  current : s.authority = g

theorem Sane.owns_iff (h : s.Sane) : s.owns c (some g) = true ↔ s.OwnedBy c g := by
  simp only [owns, claims_iff, Option.all_some, decide_eq_true_eq]
  constructor
  · rintro ⟨hclaim, -, hrunning, hcurrent, hg⟩
    exact ⟨hclaim, hrunning, hg, hcurrent.symm.trans hg⟩
  · intro howned
    exact ⟨howned.claimId, h.running howned.running, howned.running,
      howned.generation.trans howned.current.symm, howned.generation⟩

/-- A call does not bring back a generation that the authority has had. -/
theorem Moves.owned_back (h : Moves s call s') (hs : s.Sane) (hg : g ≤ s.authority)
    (howned : s'.OwnedBy c g) : s.OwnedBy c g := by
  obtain ⟨hclaim, hrunning, hgeneration, hcurrent⟩ := howned
  cases h with
  | idle => exact ⟨hclaim, hrunning, hgeneration, hcurrent⟩
  | renew => exact ⟨hclaim, hrunning, hgeneration, hcurrent⟩
  | take => exact absurd (hcurrent ▸ hg) (Nat.not_succ_le_self _)
  | stop => cases hrunning
  | settle => cases hrunning
  | lose => cases hrunning
  | advance => exact absurd (hcurrent ▸ hg) (Nat.not_succ_le_self _)
  | relabel unowned => exact absurd (hs.running hrunning) unowned

/-- A continuation of a run. -/
abbrev ControlLeads := Leads step fun _ s call => s.Admissible call

variable {pre mid post log : List (BodyCall × BodyReply)}

theorem ControlLeads.sane (h : ControlLeads pre s post s') (hs : s.Sane) : s'.Sane := by
  induction h with
  | done => exact hs
  | next call hcall _ ih => exact ih ((hs.moves hcall).sane hs)

theorem ControlLeads.authority_le (h : ControlLeads pre s post s') (hs : s.Sane) :
    s.authority ≤ s'.authority := by
  induction h with
  | done => exact le_refl _
  | next call hcall _ ih =>
      exact (hs.moves hcall).authority_le.trans (ih ((hs.moves hcall).sane hs))

/-- What is not owned now is not owned under the same generation later. -/
theorem ControlLeads.not_owned (h : ControlLeads pre s post s') (hs : s.Sane)
    (hg : g ≤ s.authority) (hlost : ¬ s.OwnedBy c g) : ¬ s'.OwnedBy c g := by
  induction h with
  | done => exact hlost
  | next call hcall _ ih =>
      have hmoves := hs.moves hcall
      exact ih (hmoves.sane hs) (hg.trans hmoves.authority_le) fun howned =>
        hlost (hmoves.owned_back hs hg howned)

/-- A query in the log, as the state that answered it. -/
theorem ControlRun.queried {generation : Option Nat} {b : Bool}
    (h : ControlRun authority (pre ++ (.owns c generation, .answer b) :: post) s) :
    ∃ s₁, ControlRun authority pre s₁ ∧ s₁.owns c generation = b ∧
      ControlLeads (pre ++ [(.owns c generation, .answer b)]) s₁ post s := by
  obtain ⟨s₁, hpre, hrest⟩ := h.split
  obtain ⟨hanswer, -, hpost⟩ := hrest.head
  exact ⟨s₁, hpre, (BodyReply.answer.inj hanswer).symm, hpost⟩

/-- **Fencing**: in every run, once a claim is told that it no longer has the
Body under the generation it had it under, it is never told again that it has. -/
theorem owns_fenced
    (h : ControlRun authority (pre ++ (.owns c (some g), .answer true) :: mid
      ++ (.owns c (some g), .answer false) :: post) s) :
    (.owns c (some g), .answer true) ∉ post := by
  intro hagain
  obtain ⟨early, late, rfl⟩ := List.append_of_mem hagain
  obtain ⟨s₂, hrun₂, hlost, hleads₂⟩ := h.queried
  obtain ⟨s₁, hrun₁, hhad, hleads₁⟩ := hrun₂.queried
  obtain ⟨s₃, hleads₃, hrest⟩ := hleads₂.split
  obtain ⟨hanswer, -, -⟩ := hrest.head
  have hhad : s₁.OwnedBy c g := hrun₁.sane.owns_iff.mp hhad
  have hknown : g ≤ s₂.authority := hhad.current ▸ hleads₁.authority_le hrun₁.sane
  have hlost : ¬ s₂.OwnedBy c g := fun howned => by
    rw [hrun₂.sane.owns_iff.mpr howned] at hlost
    cases hlost
  have hsane : s₃.Sane := ControlLeads.sane hleads₃ hrun₂.sane
  exact ControlLeads.not_owned hleads₃ hrun₂.sane hknown hlost
    (hsane.owns_iff.mp (BodyReply.answer.inj hanswer).symm)

/-- An agent call is admitted twice, then stopped; when the native stop is
confirmed a threat takes over. -/
def handedOver : List BodyCall :=
  [.claim "call" .agentCall, .owns "call" (some 1), .claim "call" .agentPlan, .generationCurrent 1,
    .markStopping none, .owns "call" (some 1), .onGenerationInvalidated "threat" 1,
    .confirmNativeStopped true, .claim "guard" .threat, .owns "guard" none]

theorem handedOver_run : ControlRun 0 (exec step (init 0) handedOver).1
    (exec step (init 0) handedOver).2 := by
  have hpass : passes step (fun _ s call => decide (s.Admissible call)) [] (init 0) handedOver
      = true := by decide
  exact Run.of_passes .start (fun _ _ _ hcheck => of_decide_eq_true hcheck) hpass

theorem owns_fenced_handedOver :
    (BodyCall.owns "call" (some 1), BodyReply.answer true) ∉
      (exec step (init 0) handedOver).1.drop 6 := by
  have hlog : (exec step (init 0) handedOver).1
      = (exec step (init 0) handedOver).1.take 1 ++ (.owns "call" (some 1), .answer true) ::
          ((exec step (init 0) handedOver).1.drop 2).take 3
        ++ (.owns "call" (some 1), .answer false) ::
          (exec step (init 0) handedOver).1.drop 6 := by decide
  have hrun := handedOver_run
  rw [hlog] at hrun
  exact owns_fenced hrun

/-! ## Settlements -/

/-- A call that settles the Body of the claim: a confirmed native stop, or a
settlement that names the claim or none. -/
def Settles (c : String) (call : BodyCall) : Prop :=
  call = .settle none ∨ call = .settle (some c) ∨ call = .confirmNativeStopped true

/-- Only a settlement takes the claim off the record, whatever else happens to
its owner. -/
theorem Moves.keeps_claim (h : Moves s call s') (hs : s.Sane) (hclaim : s.claimId = some c)
    (hnot : ¬ Settles c call) : s'.claimId = some c := by
  cases h with
  | renew claims running same => exact hclaim
  | take claims settled =>
      rw [hs.unheld (hs.settled settled)] at hclaim
      cases hclaim
  | settle settles =>
      refine absurd ?_ hnot
      rcases settles with rfl | ⟨claimId, rfl, hown⟩
      · exact .inr (.inr rfl)
      · cases claimId with
        | none => exact .inl rfl
        | some c' =>
            simp only [foreign, hclaim, decide_eq_false_iff_not, not_not] at hown
            exact .inr (.inl (by rw [hown]))
  | _ => exact hclaim

theorem ControlLeads.keeps_claim (h : ControlLeads pre s post s') (hs : s.Sane)
    (hclaim : s.claimId = some c) (hnot : ∀ entry ∈ post, ¬ Settles c entry.1) :
    s'.claimId = some c := by
  induction h with
  | done => exact hclaim
  | next call hcall _ ih =>
      have hmoves := hs.moves hcall
      exact ih (hmoves.sane hs)
        (hmoves.keeps_claim hs hclaim (hnot _ List.mem_cons_self))
        fun entry hentry => hnot entry (List.mem_cons_of_mem _ hentry)

/-- The Body passes from one claim to another only by way of a settlement: of
the first claim by name, of whatever claim there is, or by a confirmed native
stop. -/
theorem owns_settled {generation generation' : Option Nat} (hne : c ≠ c')
    (h : ControlRun authority (pre ++ (.owns c generation, .answer true) :: mid
      ++ (.owns c' generation', .answer true) :: post) s) :
    ∃ entry ∈ mid, Settles c entry.1 := by
  by_contra hnone
  simp only [not_exists, not_and] at hnone
  obtain ⟨s₂, hrun₂, howns₂, -⟩ := h.queried
  obtain ⟨s₁, hrun₁, howns₁, hleads⟩ := hrun₂.queried
  have hclaim : s₁.claimId = some c := (of_decide_eq_true howns₁).1
  have hkept : s₂.claimId = some c := ControlLeads.keeps_claim hleads hrun₁.sane hclaim hnone
  have hclaim' : s₂.claimId = some c' := (of_decide_eq_true howns₂).1
  exact hne (Option.some.inj (hkept.symm.trans hclaim'))

theorem owns_settled_handedOver :
    ∃ entry ∈ ((exec step (init 0) handedOver).1.drop 2).take 7, Settles "call" entry.1 := by
  have hlog : (exec step (init 0) handedOver).1
      = (exec step (init 0) handedOver).1.take 1 ++ (.owns "call" (some 1), .answer true) ::
          ((exec step (init 0) handedOver).1.drop 2).take 7
        ++ (.owns "guard" none, .answer true) :: [] := by decide
  have hrun := handedOver_run
  rw [hlog] at hrun
  exact owns_settled (by decide) hrun

/-! ## While a generation is current -/

/-- Since the claim was admitted under the current generation nobody else has
been, and nothing was stopped. -/
structure Unbroken (c : String) (g : Nat) (s : BodyControl) : Prop where
  current : s.authority = g
  unstopped : s.stopState ≠ .stopping
  claimed : s.claimId = some c ∨ s.claimId = none
  running : s.stopState = .running → s.generation = g

/-- What the log says meanwhile: the authority has not moved, no snapshot is one
of a Body that is being stopped, and whoever is admitted is the claim itself. -/
def Undisturbed (c : String) (g : Nat) (entry : BodyCall × BodyReply) : Prop :=
  entry.1 ≠ .nextGeneration ∧ ∀ snapshot, entry.2 = .snapshot snapshot →
    snapshot.stopState ≠ .stopping ∧
      ∀ claimId holder, entry.1 = .claim claimId holder →
        claimId = c ∧ snapshot.generation = g

theorem Moves.unbroken (h : Moves s call s') (hs : s.Sane) (hun : Unbroken c g s)
    (hstill : s'.authority = g) : Unbroken c g s' := by
  cases h with
  | idle => exact hun
  | renew => exact ⟨hun.current, hun.unstopped, hun.claimed, hun.running⟩
  | take | stop | advance => exact absurd (hstill.trans hun.current.symm) (Nat.succ_ne_self _)
  | settle =>
      refine ⟨hun.current, ?_, .inr rfl, ?_⟩
      · intro hstopping
        cases hstopping
      · intro hrunning
        cases hrunning
  | lose =>
      refine ⟨hun.current, ?_, hun.claimed, ?_⟩
      · intro hstopping
        cases hstopping
      · intro hrunning
        cases hrunning
  | relabel unowned =>
      exact ⟨hun.current, hun.unstopped, hun.claimed,
        fun hrunning => absurd (hs.running hrunning) unowned⟩

/-- The reply to a call that answers with a snapshot is one of the state it leaves. -/
theorem step_snapshot {snapshot : BodyControlSnapshot}
    (h : (s.step call).1 = .snapshot snapshot) : snapshot = (s.step call).2.snapshot := by
  cases call with
  | claim claimId holder =>
      simp only [step] at h ⊢
      cases hclaim : s.claim claimId holder with
      | ok s' =>
          rw [hclaim] at h
          exact (BodyReply.snapshot.inj h).symm
      | error error =>
          rw [hclaim] at h
          cases h
  | markStopping | settle | markUnknown | confirmNativeStopped =>
      exact (BodyReply.snapshot.inj h).symm
  | _ => cases h

theorem claim_snapshot {claimId : String} {holder : BodyHolder} {snapshot : BodyControlSnapshot}
    (h : (s.step (.claim claimId holder)).1 = .snapshot snapshot) :
    (s.step (.claim claimId holder)).2.claimId = some claimId ∧
      (s.step (.claim claimId holder)).2.stopState = .running := by
  simp only [step] at h ⊢
  cases hclaim : s.claim claimId holder with
  | error error =>
      rw [hclaim] at h
      cases h
  | ok s' =>
      unfold claim at hclaim
      split at hclaim
      · cases hclaim
      split at hclaim
      · cases hclaim
      split at hclaim
      · cases hclaim
      obtain rfl := Except.ok.inj hclaim
      exact ⟨rfl, rfl⟩

theorem Unbroken.undisturbed (hun : Unbroken c g s) (hun' : Unbroken c g (s.step call).2) :
    Undisturbed c g (call, (s.step call).1) := by
  refine ⟨?_, fun snapshot hreply => ⟨?_, ?_⟩⟩
  · rintro rfl
    exact absurd (hun'.current.trans hun.current.symm) (Nat.succ_ne_self _)
  · rw [step_snapshot hreply]
    exact hun'.unstopped
  · rintro claimId holder rfl
    obtain ⟨hclaim, hrunning⟩ := claim_snapshot hreply
    rw [step_snapshot hreply]
    refine ⟨?_, hun'.running hrunning⟩
    rcases hun'.claimed with hsame | hnone
    · exact Option.some.inj (hclaim.symm.trans hsame)
    · cases hnone.symm.trans hclaim

theorem ControlLeads.unbroken (h : ControlLeads pre s post s') (hs : s.Sane)
    (hun : Unbroken c g s) (hstill : s'.authority = g) :
    ∀ entry ∈ post, Undisturbed c g entry := by
  induction h with
  | done =>
      intro entry hentry
      cases hentry
  | @next pre post s s' call hcall hrest ih =>
      have hmoves := hs.moves hcall
      have hsane := hmoves.sane hs
      have hle : (s.step call).2.authority ≤ g := hstill ▸ ControlLeads.authority_le hrest hsane
      have hcurrent : (s.step call).2.authority = g :=
        le_antisymm hle (hun.current ▸ hmoves.authority_le)
      have hun' := hmoves.unbroken hs hun hcurrent
      intro entry hentry
      rcases List.mem_cons.mp hentry with rfl | hentry
      · exact hun.undisturbed hun'
      · exact ih hsane hun' hstill entry hentry

/-- Where the generation of an admission is still current, the Body has been
nobody else's since the admission and was not stopped: what the claim did in
between, nobody interfered with. -/
theorem current_unbroken {holder : BodyHolder} {snapshot : BodyControlSnapshot}
    (h : ControlRun authority (pre ++ (.claim c holder, .snapshot snapshot) :: mid
      ++ (.generationCurrent snapshot.generation, .answer true) :: post) s) :
    ∀ entry ∈ mid, Undisturbed c snapshot.generation entry := by
  obtain ⟨s₂, hrun₂, hrest⟩ := h.split
  obtain ⟨hanswer, -, -⟩ := hrest.head
  obtain ⟨s₁, hrun₁, hleads⟩ := hrun₂.split
  obtain ⟨hreply, hcall, hmid⟩ := hleads.head
  have hsane₁ : s₁.Sane := ControlRun.sane hrun₁
  have hsane := (hsane₁.moves hcall).sane hsane₁
  obtain ⟨hclaim, hrunning⟩ := claim_snapshot hreply.symm
  have hstill : s₂.authority = snapshot.generation :=
    (of_decide_eq_true (BodyReply.answer.inj hanswer).symm).symm
  have hgeneration : (s₁.step (.claim c holder)).2.generation = snapshot.generation := by
    rw [step_snapshot hreply.symm]
    rfl
  have hcurrent : (s₁.step (.claim c holder)).2.authority = snapshot.generation :=
    le_antisymm (hstill ▸ ControlLeads.authority_le hmid hsane) (hgeneration ▸ hsane.generation)
  refine ControlLeads.unbroken hmid hsane ⟨hcurrent, ?_, .inl hclaim, fun _ => hgeneration⟩ hstill
  rw [hrunning]
  intro hstopping
  cases hstopping

theorem current_unbroken_handedOver : List.Forall (Undisturbed "call" 1)
    (((exec step (init 0) handedOver).1.drop 1).take 2) := by
  have hlog : (exec step (init 0) handedOver).1
      = [] ++ (.claim "call" .agentCall, .snapshot ⟨.agentCall, some "call", 1, .running⟩) ::
          ((exec step (init 0) handedOver).1.drop 1).take 2
        ++ (.generationCurrent 1, .answer true) :: (exec step (init 0) handedOver).1.drop 4 := by
    decide
  have hrun := handedOver_run
  rw [hlog] at hrun
  exact List.forall_iff_forall_mem.mpr (current_unbroken hrun)

end BodyControl

end MineBot
