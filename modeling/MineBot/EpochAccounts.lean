import MineBot.EpochAdapter

/-!
# Each epoch counts once

The effects of a run, counted by epoch and by member, are what the state
says of them (`Accounts`): one archived record for each finalized epoch,
one commit unless it is bookkeeping, one claim for each claimed member.
No order of the calls breaks that. Where no two calls of `open` overlap,
every epoch but the active one is finalized (`Alone`).
-/

namespace MineBot

namespace EpochAdapter

/-! ## Runs -/

section

variable {β : Type}

abbrev Log (β : Type) := List (Call β × Outcome β)

def Log.effects (log : Log β) : List (Effect β) := log.flatMap fun entry => entry.2.effects

def Effect.claims (ref : MemberRef) : Effect β → Bool
  | .claimed member => member = ref
  | _ => false

def Effect.archives (n : Nat) : Effect β → Bool
  | .archived m _ => m = n
  | _ => false

def Effect.commits (n : Nat) : Effect β → Bool
  | .committed m => m = n
  | _ => false

/-- Any call may come at any time. -/
def anyCall (_ : Log β) (_ : State β) (_ : Call β) : Prop := True

/-- No `open` starts while another is suspended. -/
def openAlone (_ : Log β) (s : State β) : Call β → Prop
  | .openStart .. => s.suspended = []
  | _ => True

end

section

variable {β : Type} {rt : Runtime β} {s : State β}

/-! ## Finalized epochs and claimed members -/

/-- The n-th epoch is finalized, and as `p` says. -/
def State.finalizedWith (s : State β) (n : Nat) (p : Epoch β → Bool) : Bool :=
  s.epochs[n]?.any fun epoch => epoch.finalized && p epoch

def State.claimed (s : State β) (ref : MemberRef) : Bool := (s.member? ref).any (·.claimed)

variable {s' : State β} {p : Epoch β → Bool}

theorem finalizedWith_modifyMember {ref : MemberRef} {f : Member → Member} {epoch : Epoch β}
    (h : s.epochs[ref.epoch]? = some epoch) (hopen : epoch.finalized = false)
    (hs' : s'.epochs = (s.modifyMember ref f).epochs) (n : Nat) :
    s'.finalizedWith n p = s.finalizedWith n p := by
  rw [State.finalizedWith, hs', State.modifyMember, getElem?_modifyEpoch]
  by_cases hn : ref.epoch = n
  · subst hn
    simp [State.finalizedWith, h, Epoch.modifyMember, hopen]
  · rw [if_neg hn, State.finalizedWith]

theorem finalizedWith_close {n : Nat} {epoch : Epoch β}
    (hs' : ∀ m, s'.epochs[m]? = if m = n then some { epoch with finalized := true }
      else s.epochs[m]?) (m : Nat) :
    s'.finalizedWith m p
      = if m = n then p { epoch with finalized := true } else s.finalizedWith m p := by
  rw [State.finalizedWith, hs']
  split
  · rw [Option.any_some, Bool.true_and]
  · rfl

theorem finalizedWith_activate {epoch : Epoch β} (hopen : epoch.finalized = false)
    (hs' : s'.epochs = s.epochs ++ [epoch]) (n : Nat) :
    s'.finalizedWith n p = s.finalizedWith n p := by
  rw [State.finalizedWith, State.finalizedWith, hs', List.getElem?_append]
  split
  · rfl
  · next hn =>
    rw [List.getElem?_eq_none (Nat.le_of_not_lt hn), Option.any_none]
    cases hi : n - s.epochs.length with
    | zero => simp [hopen]
    | succ i => simp

theorem claimed_eq (s : State β) (ref : MemberRef) :
    s.claimed ref
      = (s.epochs[ref.epoch]?.map Epoch.claims).any fun claims => claims[ref.order]?.getD false := by
  rw [State.claimed, State.member?, State.epoch?]
  cases s.epochs[ref.epoch]? with
  | none => rfl
  | some epoch =>
      rw [Option.bind_some, Option.map_some, Option.any_some, Epoch.claims, List.getElem?_map]
      cases epoch.members[ref.order]? <;> rfl

/-- Epochs with the same claims at each place have the same claimed members. -/
theorem claimed_congr
    (h : ∀ n : Nat, s'.epochs[n]?.map Epoch.claims = s.epochs[n]?.map Epoch.claims)
    (ref : MemberRef) : s'.claimed ref = s.claimed ref := by
  rw [claimed_eq, claimed_eq, h]

theorem claimed_modifyMember {ref : MemberRef} {f : Member → Member}
    (hf : ∀ member, (f member).claimed = member.claimed)
    (hs' : s'.epochs = (s.modifyMember ref f).epochs) (ref' : MemberRef) :
    s'.claimed ref' = s.claimed ref' := by
  refine claimed_congr (fun n => ?_) ref'
  rw [hs', State.modifyMember, getElem?_modifyEpoch]
  split
  · cases s.epochs[n]? with
    | none => rfl
    | some epoch => exact congrArg some (sameClaims_modify epoch ref.order hf)
  · rfl

theorem claimed_close {n : Nat} {epoch epoch' : Epoch β} (h : s.epochs[n]? = some epoch)
    (hclaims : SameClaims epoch epoch')
    (hs' : ∀ m, s'.epochs[m]? = if m = n then some { epoch' with finalized := true }
      else s.epochs[m]?) (ref : MemberRef) :
    s'.claimed ref = s.claimed ref := by
  refine claimed_congr (fun m => ?_) ref
  rw [hs']
  split
  · next hm =>
    subst hm
    rw [h]
    exact congrArg some hclaims
  · rfl

theorem claimed_activate {epoch : Epoch β}
    (hfresh : ∀ member ∈ epoch.members, member.status = none ∧ member.claimed = false)
    (hs' : s'.epochs = s.epochs ++ [epoch]) (ref : MemberRef) :
    s'.claimed ref = s.claimed ref := by
  rw [State.claimed, State.claimed, State.member?, State.member?, State.epoch?, State.epoch?, hs',
    List.getElem?_append]
  split
  · rfl
  · next hn =>
    rw [List.getElem?_eq_none (Nat.le_of_not_lt hn), Option.bind_none, Option.any_none]
    cases hi : ref.epoch - s.epochs.length with
    | zero =>
        rw [List.getElem?_cons_zero, Option.bind_some]
        cases hmember : epoch.members[ref.order]? with
        | none => rfl
        | some member => exact (hfresh member (List.mem_of_getElem? hmember)).2
    | succ i => simp

theorem claimed_claim {n i : Nat} {epoch : Epoch β} {member : Member}
    (h : s.epochs[n]? = some epoch) (hmember : epoch.members[i]? = some member)
    (hs' : s'.epochs = (s.modifyMember ⟨n, i⟩ fun member => { member with claimed := true }).epochs)
    (ref : MemberRef) :
    s'.claimed ref = if (⟨n, i⟩ : MemberRef) = ref then true else s.claimed ref := by
  obtain ⟨m, j⟩ := ref
  rw [State.claimed, State.claimed, State.member?, State.member?, State.epoch?, State.epoch?, hs',
    State.modifyMember, getElem?_modifyEpoch]
  by_cases hn : n = m
  · subst hn
    rw [if_pos rfl, h, Option.map_some, Option.bind_some, Option.bind_some, Epoch.modifyMember,
      List.getElem?_modify]
    by_cases hi : i = j
    · subst hi
      simp [hmember]
    · simp [hi]
  · rw [if_neg hn, if_neg (fun heq => hn (MemberRef.mk.inj heq).1)]

/-! ## The accounts of a run -/

theorem Log.effects_append (log : Log β) (c : Call β) (out : Outcome β) :
    Log.effects (log ++ [(c, out)]) = log.effects ++ out.effects := by
  simp [Log.effects]

variable (rt) in
/-- The effects so far are those of the epochs that are finalized and of the
members that are claimed. -/
structure Accounts (effects : List (Effect β)) (s : State β) : Prop where
  waits : Waits s
  settled : ∀ (n : Nat) (epoch : Epoch β), s.epochs[n]? = some epoch → epoch.finalized = true →
    epoch.Settled
  archives : ∀ n, effects.countP (Effect.archives n)
    = if s.finalizedWith n fun _ => true then 1 else 0
  commits : ∀ n, effects.countP (Effect.commits n)
    = if s.finalizedWith n fun epoch => !epoch.closureOnly rt then 1 else 0
  claims : ∀ ref, effects.countP (Effect.claims ref) = if s.claimed ref then 1 else 0
  records : ∀ n epoch, .archived n epoch ∈ effects → epoch.Settled

variable {effects : List (Effect β)} {out : Outcome β}

theorem accounts_start : Accounts rt [] ({} : State β) where
  waits := fun n hn => by cases hn
  settled := fun n epoch h => by cases h
  archives := fun _ => rfl
  commits := fun _ => rfl
  claims := fun _ => rfl
  records := fun n epoch h => by cases h

theorem Accounts.pending_open (h : Accounts rt effects s) {ref : MemberRef} {member : Member}
    (hmember : s.member? ref = some member) (hpending : member.status = none) :
    ∃ epoch, s.epochs[ref.epoch]? = some epoch ∧ epoch.finalized = false := by
  obtain ⟨epoch, hget, hmem⟩ := member?_eq_some hmember
  refine ⟨epoch, hget, Bool.eq_false_iff.mpr fun hfinal => ?_⟩
  exact h.settled ref.epoch epoch hget hfinal member (List.mem_of_getElem? hmem) hpending

/-- A change of a member of an epoch that is not finalized. -/
theorem settled_modifyMember {ref : MemberRef} {f : Member → Member} {epoch : Epoch β}
    (hget : s.epochs[ref.epoch]? = some epoch) (hopen : epoch.finalized = false)
    (hs' : s'.epochs = (s.modifyMember ref f).epochs)
    (h : ∀ (n : Nat) (epoch : Epoch β), s.epochs[n]? = some epoch → epoch.finalized = true →
      epoch.Settled) :
    ∀ (n : Nat) (epoch : Epoch β), s'.epochs[n]? = some epoch → epoch.finalized = true →
      epoch.Settled := by
  intro n epoch' hget' hfinal
  rw [hs', State.modifyMember, getElem?_modifyEpoch] at hget'
  by_cases hn : ref.epoch = n
  · subst hn
    rw [if_pos rfl, hget] at hget'
    obtain rfl := Option.some.inj hget'
    exact absurd hfinal (by simp [Epoch.modifyMember, hopen])
  · rw [if_neg hn] at hget'
    exact h n epoch' hget' hfinal

theorem waits_claim {n i : Nat} {epoch : Epoch β} (h : Waits s) (hquiet : Quiet s s')
    (hactive : s.active = some n) (hget : s.epochs[n]? = some epoch)
    (hs' : s'.epochs
      = (s.modifyMember ⟨n, i⟩ fun member => { member with claimed := true }).epochs) :
    Waits s' := by
  obtain ⟨epoch', hget', hopen, member, hmember, hpending⟩ := h n hactive
  obtain rfl := Option.some.inj (hget.symm.trans hget')
  intro m hm
  obtain rfl := Option.some.inj (hactive.symm.trans (hquiet.1.symm.trans hm))
  refine ⟨epoch.modifyMember i fun member => { member with claimed := true }, ?_, hopen, ?_⟩
  · rw [hs', State.modifyMember, getElem?_modifyEpoch, if_pos rfl, hget]
    rfl
  · obtain ⟨j, hj⟩ := List.getElem?_of_mem hmember
    by_cases hij : i = j
    · refine ⟨{ member with claimed := true }, List.mem_of_getElem? (i := j) ?_, hpending⟩
      rw [Epoch.modifyMember, List.getElem?_modify, hj]
      simp [hij]
    · refine ⟨member, List.mem_of_getElem? (i := j) ?_, hpending⟩
      rw [Epoch.modifyMember, List.getElem?_modify, hj]
      simp [hij]

theorem Accounts.claim (h : Accounts rt effects s) {n i : Nat} {epoch : Epoch β} {member : Member}
    (hquiet : Quiet s s') (hactive : s.active = some n) (hget : s.epochs[n]? = some epoch)
    (hmember : epoch.members[i]? = some member) (hclaimed : member.claimed = false)
    (hs' : s'.epochs
      = (s.modifyMember ⟨n, i⟩ fun member => { member with claimed := true }).epochs) :
    Accounts rt (effects ++ [.claimed ⟨n, i⟩]) s' := by
  obtain ⟨epoch', hget', hopen, -⟩ := h.waits n hactive
  obtain rfl := Option.some.inj (hget.symm.trans hget')
  have hfresh : s.claimed ⟨n, i⟩ = false := by
    simp [State.claimed, State.member?, State.epoch?, hget, hmember, hclaimed]
  constructor
  · exact waits_claim h.waits hquiet hactive hget hs'
  · exact settled_modifyMember hget hopen hs' h.settled
  · intro m
    rw [List.countP_append, h.archives, finalizedWith_modifyMember hget hopen hs']
    rfl
  · intro m
    rw [List.countP_append, h.commits, finalizedWith_modifyMember hget hopen hs']
    rfl
  · intro ref
    rw [List.countP_append, h.claims, claimed_claim hget hmember hs', List.countP_singleton,
      Effect.claims]
    by_cases href : (⟨n, i⟩ : MemberRef) = ref
    · subst href
      simp [hfresh]
    · simp [href]
  · intro m epoch hmem
    rw [List.mem_append, List.mem_singleton] at hmem
    rcases hmem with hmem | hmem
    · exact h.records m epoch hmem
    · cases hmem

theorem Accounts.close (h : Accounts rt effects s) {n : Nat} {epoch epoch' : Epoch β}
    (hget : s.epochs[n]? = some epoch) (hopen : epoch.finalized = false)
    (hsettled : epoch'.Settled) (hclaims : SameClaims epoch epoch')
    (hs' : ∀ m, s'.epochs[m]? = if m = n then some { epoch' with finalized := true }
      else s.epochs[m]?) (hnone : s'.active = none) :
    Accounts rt (effects
      ++ (.archived n epoch' :: if epoch'.closureOnly rt then [] else [.committed n])) s' := by
  have hbefore : ∀ p, s.finalizedWith n p = false := by
    intro p
    rw [State.finalizedWith, hget, Option.any_some, hopen, Bool.false_and]
  constructor
  · intro m hm
    rw [hnone] at hm
    cases hm
  · intro m e hm hfinal
    rw [hs'] at hm
    split at hm
    · rw [← Option.some.inj hm]
      exact hsettled
    · exact h.settled m e hm hfinal
  · intro m
    rw [List.countP_append, h.archives, finalizedWith_close hs', List.countP_cons]
    have hrest : (if epoch'.closureOnly rt then [] else [Effect.committed n]).countP
        (Effect.archives (β := β) m) = 0 := by
      split <;> rfl
    rw [hrest]
    by_cases hm : m = n
    · subst hm
      simp [hbefore, Effect.archives]
    · simp [hm, Ne.symm hm, Effect.archives]
  · intro m
    rw [List.countP_append, h.commits, finalizedWith_close hs', List.countP_cons]
    have hclosure : Epoch.closureOnly rt { epoch' with finalized := true }
        = epoch'.closureOnly rt := rfl
    rw [hclosure]
    by_cases hm : m = n
    · subst hm
      cases epoch'.closureOnly rt <;> simp [hbefore, Effect.commits]
    · cases epoch'.closureOnly rt <;> simp [hm, Ne.symm hm, Effect.commits]
  · intro ref
    rw [List.countP_append, h.claims, claimed_close hget hclaims hs', List.countP_cons]
    have hrest : (if epoch'.closureOnly rt then [] else [Effect.committed n]).countP
        (Effect.claims (β := β) ref) = 0 := by
      split <;> rfl
    rw [hrest]
    rfl
  · intro m e hmem
    rw [List.mem_append, List.mem_cons] at hmem
    rcases hmem with hmem | heq | hmem
    · exact h.records m e hmem
    · obtain ⟨-, rfl⟩ := Effect.archived.inj heq
      exact hsettled
    · split at hmem
      · cases hmem
      · cases List.mem_singleton.mp hmem

theorem Accounts.activate (h : Accounts rt effects s) {epoch : Epoch β}
    (hfresh : ∀ member ∈ epoch.members, member.status = none ∧ member.claimed = false)
    (hne : epoch.members ≠ []) (hopen : epoch.finalized = false)
    (hs' : s'.epochs = s.epochs ++ [epoch]) (hactive : s'.active = some s.epochs.length) :
    Accounts rt (effects ++ [.opened s.epochs.length]) s' := by
  have hnew : s'.epochs[s.epochs.length]? = some epoch := by
    rw [hs', List.getElem?_append_right (Nat.le_refl _), Nat.sub_self]
    rfl
  constructor
  · intro n hn
    obtain rfl := Option.some.inj (hactive.symm.trans hn)
    obtain ⟨member, hmember⟩ := List.exists_mem_of_ne_nil _ hne
    exact ⟨epoch, hnew, hopen, member, hmember, (hfresh member hmember).1⟩
  · intro n e hget hfinal
    rw [hs', List.getElem?_append] at hget
    split at hget
    · exact h.settled n e hget hfinal
    · obtain rfl := List.mem_singleton.mp (List.mem_of_getElem? hget)
      exact absurd hfinal (by simp [hopen])
  · intro n
    rw [List.countP_append, h.archives, finalizedWith_activate hopen hs']
    rfl
  · intro n
    rw [List.countP_append, h.commits, finalizedWith_activate hopen hs']
    rfl
  · intro ref
    rw [List.countP_append, h.claims, claimed_activate hfresh hs']
    rfl
  · intro n e hmem
    rw [List.mem_append, List.mem_singleton] at hmem
    exact h.records n e (hmem.resolve_right nofun)

theorem Accounts.next (h : Accounts rt effects s) (hchange : Change rt s out s') :
    Accounts rt (effects ++ out.effects) s' := by
  cases hchange with
  | keep hquiet heffects hepochs =>
      have hfinalized : ∀ n p, s'.finalizedWith n p = s.finalizedWith n p := by
        intro n p
        rw [State.finalizedWith, hepochs, State.finalizedWith]
      rw [heffects, List.append_nil]
      constructor
      · intro n hn
        rw [hquiet.1] at hn
        rw [hepochs]
        exact h.waits n hn
      · rw [hepochs]
        exact h.settled
      · intro n
        rw [h.archives, hfinalized]
      · intro n
        rw [h.commits, hfinalized]
      · intro ref
        rw [h.claims, claimed_congr fun n => by rw [hepochs]]
      · exact h.records
  | claim hquiet hactive hget hmember hclaimed heffects hepochs =>
      rw [heffects]
      exact h.claim hquiet hactive hget hmember hclaimed hepochs
  | report hquiet hmember hpending hf heffects hepochs hwaits =>
      obtain ⟨epoch, hget, hopen⟩ := h.pending_open hmember hpending
      rw [heffects, List.append_nil]
      constructor
      · exact hwaits
      · exact settled_modifyMember hget hopen hepochs h.settled
      · intro n
        rw [h.archives, finalizedWith_modifyMember hget hopen hepochs]
      · intro n
        rw [h.commits, finalizedWith_modifyMember hget hopen hepochs]
      · intro ref'
        rw [h.claims, claimed_modifyMember hf hepochs]
      · exact h.records
  | close hactive hget hopen hsettled hclaims heffects hepochs hnone =>
      rw [heffects]
      exact h.close hget hopen hsettled hclaims hepochs hnone
  | activate _ hfresh hne hopen heffects hepochs hactive =>
      rw [heffects]
      exact h.activate hfresh hne hopen hepochs hactive

theorem accounts_run {ok : Log β → State β → Call β → Prop} {log : Log β}
    (h : Run (step rt) ok {} log s) : Accounts rt log.effects s := by
  refine h.invariant (P := fun log s => Accounts rt (Log.effects log) s) accounts_start ?_
  intro log s c _ _ ih
  rw [Log.effects_append]
  exact ih.next (step_change ih.waits c)

/-! ## Opens that do not overlap -/

/-- At most one `open` is suspended, no epoch is active meanwhile, and every
other epoch is finalized. -/
structure Alone (s : State β) : Prop where
  one : s.suspended.length ≤ 1
  inactive : s.suspended ≠ [] → s.active = none
  finalized : ∀ n, n < s.epochs.length → s.active ≠ some n → s.finalizedWith n (fun _ => true) = true

theorem finalizeEpoch_suspended (env : Circumstances) (n : Nat) (epoch : Epoch β) (s : State β) :
    (finalizeEpoch rt env n epoch s).2.suspended = s.suspended := by
  rw [finalizeEpoch]
  split
  · rfl
  · split <;> rfl

variable (rt) in
theorem finalizeUnsettled_suspended (reason : String) (env : Circumstances) (s : State β) :
    (finalizeUnsettled rt reason env s).2.suspended = s.suspended := by
  rw [finalizeUnsettled]
  split
  · rfl
  · split
    · rfl
    · exact finalizeEpoch_suspended env _ _ _

theorem settle_suspended (ref : MemberRef) (report : Report β) (env : Circumstances)
    (s : State β) : (settle rt ref report env s).2.suspended = s.suspended := by
  rw [settle]
  split
  · split
    · rfl
    · simp only
      split
      · rfl
      · split
        · rfl
        · exact finalizeEpoch_suspended env _ _ _
  · rfl

theorem claimMember_suspended (toolName inputJson : String) (id : Option String) (s : State β) :
    (claimMember rt toolName inputJson id s).2.suspended = s.suspended := by
  rw [claimMember]
  split
  · rfl
  · split
    · rfl
    · split <;> rfl

theorem activeEpoch_of_inactive (h : s.active = none) : s.activeEpoch = none := by
  rw [State.activeEpoch, h]
  rfl

variable (rt) in
/-- Closing leaves no epoch active. -/
theorem finalizeUnsettled_inactive (h : Waits s) (reason : String) (env : Circumstances) :
    (finalizeUnsettled rt reason env s).2.active = none := by
  rw [finalizeUnsettled]
  split
  · next hnone =>
    cases hactive : s.active with
    | none => rfl
    | some n =>
        obtain ⟨epoch, hget, -⟩ := h n hactive
        rw [State.activeEpoch, hactive, Option.bind_some, State.epoch?, hget] at hnone
        cases hnone
  · next n epoch hepoch =>
    obtain ⟨hactive, hget⟩ := activeEpoch_eq_some hepoch
    obtain ⟨epoch', hget', hopen, -⟩ := h n hactive
    obtain rfl := Option.some.inj (hget.symm.trans hget')
    rw [if_neg (by simp [hopen])]
    obtain ⟨out, hout⟩ := finalizeEpoch_eq rt env n (epoch.cancelPending reason)
      (s.modifyEpoch n (·.cancelPending reason)) hopen
    rw [hout]

theorem Alone.finalized_next (h : Alone s) (haccounts : Accounts rt effects s)
    (hchange : Change rt s out s') (n : Nat) (hn : n < s'.epochs.length)
    (hactive' : s'.active ≠ some n) : s'.finalizedWith n (fun _ => true) = true := by
  cases hchange with
  | keep hquiet heffects hepochs =>
      rw [State.finalizedWith, hepochs]
      rw [hepochs] at hn
      rw [hquiet.1] at hactive'
      exact h.finalized n hn hactive'
  | claim hquiet hactive hget hmember hclaimed heffects hepochs =>
      obtain ⟨epoch', hget', hopen, -⟩ := haccounts.waits _ hactive
      obtain rfl := Option.some.inj (hget.symm.trans hget')
      rw [finalizedWith_modifyMember hget hopen hepochs]
      rw [hepochs, State.modifyMember, State.modifyEpoch, List.length_modify] at hn
      rw [hquiet.1] at hactive'
      exact h.finalized n hn hactive'
  | report hquiet hmember hpending hf heffects hepochs hwaits =>
      obtain ⟨epoch, hget, hopen⟩ := haccounts.pending_open hmember hpending
      rw [finalizedWith_modifyMember hget hopen hepochs]
      rw [hepochs, State.modifyMember, State.modifyEpoch, List.length_modify] at hn
      rw [hquiet.1] at hactive'
      exact h.finalized n hn hactive'
  | @close m _ _ _ _ hactive hget hopen hsettled hclaims heffects hepochs hnone =>
      rw [finalizedWith_close hepochs]
      by_cases hm : n = m
      · rw [if_pos hm]
      · rw [if_neg hm]
        have hget' := List.getElem?_eq_getElem hn
        rw [hepochs, if_neg hm] at hget'
        have hlt : n < s.epochs.length := (List.getElem?_eq_some_iff.mp hget').1
        refine h.finalized n hlt fun heq => hm ?_
        exact Option.some.inj (heq.symm.trans hactive)
  | activate hsuspended hfresh hne hopen heffects hepochs hactive =>
      rw [finalizedWith_activate hopen hepochs]
      rw [hepochs, List.length_append, List.length_singleton] at hn
      rw [hactive] at hactive'
      have hlt : n < s.epochs.length := by
        have hne : s.epochs.length ≠ n := fun heq => hactive' (congrArg some heq)
        omega
      refine h.finalized n hlt ?_
      rw [h.inactive hsuspended]
      exact (Option.some_ne_none n).symm

theorem Alone.next (h : Alone s) (haccounts : Accounts rt effects s) {c : Call β}
    {log : Log β} (hok : openAlone log s c) : Alone (step rt s c).2 := by
  have hfinalized := h.finalized_next haccounts (step_change haccounts.waits c)
  have herase : ∀ i, (s.suspended.eraseIdx i).length ≤ 1 := fun i =>
    Nat.le_trans (List.length_eraseIdx_le ..) h.one
  have hidle : ∀ s' : State β, s'.suspended = s.suspended → (s.active = none → s'.active = none) →
      s'.suspended.length ≤ 1 ∧ (s'.suspended ≠ [] → s'.active = none) := by
    intro s' hsuspended hactive
    rw [hsuspended]
    exact ⟨h.one, fun hne => hactive (h.inactive hne)⟩
  suffices hone : (step rt s c).2.suspended.length ≤ 1
      ∧ ((step rt s c).2.suspended ≠ [] → (step rt s c).2.active = none) from
    ⟨hone.1, hone.2, hfinalized⟩
  cases c with
  | openStart output epochId env =>
      have hempty : s.suspended = [] := hok
      have hsuspended := finalizeUnsettled_suspended rt "next_model_response" env s
      have hinactive := finalizeUnsettled_inactive rt haccounts.waits
        "next_model_response" env
      rw [step, openStart]
      simp only
      split
      · exact ⟨h.one, h.inactive⟩
      · split
        · exact ⟨by rw [hsuspended]; exact h.one, fun _ => hinactive⟩
        · refine ⟨?_, fun _ => hinactive⟩
          simp only [hsuspended, hempty, List.nil_append, List.length_singleton, Nat.le_refl]
  | openFinish i reads =>
      rw [step, openFinish]
      split
      · exact ⟨h.one, h.inactive⟩
      · next opening hopening =>
        have hlt := (List.getElem?_eq_some_iff.mp hopening).1
        have hlen := List.length_eraseIdx_of_lt hlt
        have hone := h.one
        have hempty : s.suspended.eraseIdx i = [] := List.length_eq_zero_iff.mp (by omega)
        exact ⟨herase i, fun hne => absurd hempty hne⟩
  | openFail i =>
      refine ⟨herase i, fun hne => h.inactive fun hnil => hne ?_⟩
      rw [step, hnil]
      rfl
  | claimMember toolName inputJson id =>
      refine hidle _ (claimMember_suspended toolName inputJson id s) fun hnone => ?_
      rw [step, claimMember, activeEpoch_of_inactive hnone]
      exact hnone
  | settle ref report env =>
      refine hidle _ (settle_suspended ref report env s) fun hnone => ?_
      rw [step, settle, activeEpoch_of_inactive hnone]
      exact hnone
  | cancelMember ref reason env =>
      refine hidle _ (settle_suspended ref _ env s) fun hnone => ?_
      rw [step, cancelMember, settle, activeEpoch_of_inactive hnone]
      exact hnone
  | finalizeUnsettled reason env =>
      refine hidle _ (finalizeUnsettled_suspended rt reason env s) fun hnone => ?_
      rw [step, finalizeUnsettled, activeEpoch_of_inactive hnone]
      exact hnone

theorem alone_run {log : Log β} (h : Run (step rt) openAlone {} log s) : Alone s := by
  have hboth : Accounts rt (Log.effects log) s ∧ Alone s := by
    refine h.invariant (P := fun log s => Accounts rt (Log.effects log) s ∧ Alone s)
      ⟨accounts_start, ⟨Nat.zero_le 1, fun hne => absurd rfl hne, fun n hn => ?_⟩⟩ ?_
    · exact absurd hn (Nat.not_lt_zero n)
    · intro log s c _ hok ih
      rw [Log.effects_append]
      exact ⟨ih.1.next (step_change ih.1.waits c), ih.2.next ih.1 hok⟩
  exact hboth.2

/-! ## Late and repeated settlements -/

/-- The call has no effect, and the authority and the archive stay. -/
def Untouched (s : State β) (done : Outcome β × State β) : Prop :=
  done.1.effects = [] ∧ done.2.authority = s.authority ∧ done.2.store = s.store

/-- A settlement of a member that is settled, or of an epoch that is not
active, has no effect. -/
theorem settle_late (h : Waits s) (ref : MemberRef) (report : Report β) (env : Circumstances)
    (hlate : s.active ≠ some ref.epoch ∨ (s.member? ref).any (·.status ≠ none)) :
    Untouched s (settle rt ref report env s) := by
  rw [settle]
  split
  · next n epoch member hepoch hmember =>
    obtain ⟨hactive, hget⟩ := activeEpoch_eq_some hepoch
    split
    · exact ⟨rfl, rfl, rfl⟩
    · next hopen =>
      obtain ⟨hopen, hpending⟩ := not_or.mp hopen
      have hpending : member.status = none := not_not.mp hpending
      have hother : ref.epoch ≠ n := by
        rintro rfl
        rcases hlate with hlate | hlate
        · exact hlate hactive
        · rw [hmember] at hlate
          exact absurd hpending (by simpa using hlate)
      have hn : (s.modifyMember ref (settled rt epoch report)).epochs[n]? = some epoch := by
        rw [State.modifyMember, getElem?_modifyEpoch, if_neg hother, hget]
      obtain ⟨epoch', hget', -, hwaits⟩ := h n hactive
      obtain rfl := Option.some.inj (hget.symm.trans hget')
      simp only [State.epoch?, hn]
      rw [if_pos ((any_pending_iff _).mpr hwaits)]
      exact ⟨rfl, rfl, rfl⟩
  · exact ⟨rfl, rfl, rfl⟩

/-- In every order of the calls, late and repeated ones included: a member is
claimed at most once; an epoch is archived and committed at most once, after
its last member has settled; a late settlement touches nothing. Where no two
calls of `open` overlap, an epoch that is no longer active has been archived
once, and committed once unless it is bookkeeping. -/
theorem epochs_once {log : Log β} (h : Run (step rt) anyCall {} log s) :
    (∀ ref, log.effects.countP (Effect.claims ref) ≤ 1)
    ∧ (∀ n, log.effects.countP (Effect.archives n) ≤ 1
        ∧ log.effects.countP (Effect.commits n) ≤ log.effects.countP (Effect.archives n))
    ∧ (∀ n epoch, .archived n epoch ∈ log.effects → epoch.Settled)
    ∧ (∀ n, 0 < log.effects.countP (Effect.archives n) →
        ∃ epoch, s.epochs[n]? = some epoch ∧ epoch.Settled)
    ∧ (∀ ref env, s.active ≠ some ref.epoch ∨ (s.member? ref).any (·.status ≠ none) →
        (∀ report, Untouched s (settle rt ref report env s))
          ∧ ∀ reason, Untouched s (cancelMember rt ref reason env s))
    ∧ (Run (step rt) openAlone {} log s → ∀ (n : Nat) (epoch : Epoch β),
        s.epochs[n]? = some epoch → s.active ≠ some n →
        log.effects.countP (Effect.archives n) = 1
          ∧ log.effects.countP (Effect.commits n) = if epoch.closureOnly rt then 0 else 1) := by
  have haccounts := accounts_run h
  refine ⟨fun ref => ?_, fun n => ?_, haccounts.records, fun n hn => ?_, fun ref env hlate => ?_,
    fun halone n epoch hget hn => ?_⟩
  · rw [haccounts.claims]
    split <;> omega
  · rw [haccounts.archives, haccounts.commits, State.finalizedWith, State.finalizedWith]
    cases s.epochs[n]? with
    | none => simp
    | some epoch => cases hfinal : epoch.finalized <;> cases hclosure : epoch.closureOnly rt <;>
        simp [hfinal, hclosure]
  · rw [haccounts.archives, State.finalizedWith] at hn
    cases hget : s.epochs[n]? with
    | none => simp [hget] at hn
    | some epoch =>
        cases hfinal : epoch.finalized with
        | false => simp [hget, hfinal] at hn
        | true => exact ⟨epoch, rfl, haccounts.settled n epoch hget hfinal⟩
  · exact ⟨fun report => settle_late haccounts.waits ref report env hlate,
      fun reason => settle_late haccounts.waits ref _ env hlate⟩
  · have hlt := (List.getElem?_eq_some_iff.mp hget).1
    have hfinal := (alone_run halone).finalized n hlt hn
    rw [State.finalizedWith, hget, Option.any_some, Bool.and_true] at hfinal
    rw [haccounts.archives, haccounts.commits, State.finalizedWith, State.finalizedWith, hget]
    cases hclosure : epoch.closureOnly rt <;> simp [hfinal, hclosure]

/-- An epoch without steps, of task tools only, is bookkeeping. -/
theorem closureOnly_of {epoch : Epoch β}
    (h : ∀ member ∈ epoch.members,
      member.progressSteps = [] ∧ rt.taskClosureTool member.toolName = true) :
    epoch.closureOnly rt = true := by
  have hordered : ∀ member ∈ (epoch.toProgressEpoch rt).ordered,
      member.progressSteps = [] ∧ rt.taskClosureTool member.toolName = true := by
    intro member hmember
    rw [ProgressEpoch.ordered, List.mem_mergeSort] at hmember
    obtain ⟨member, hmem, rfl⟩ := List.mem_map.mp hmember
    exact ⟨List.map_eq_nil_iff.mpr (h member hmem).1, (h member hmem).2⟩
  have hsteps : (epoch.toProgressEpoch rt).ordered.flatMap (·.progressSteps) = [] :=
    List.flatMap_eq_nil_iff.mpr fun member hmember => (hordered member hmember).1
  rw [Epoch.closureOnly, ProgressEpoch.closureOnly, Bool.and_eq_true, List.all_eq_true]
  refine ⟨?_, fun member hmember => (hordered member hmember).2⟩
  rw [ProgressEpoch.committedSteps, collapsedEpochProgressSteps, hsteps]
  rfl

variable (rt) in
/-- A new response closes the active epoch. -/
theorem openStart_eq {n : Nat} {epoch : Epoch β} (hactive : s.activeEpoch = some (n, epoch))
    (hopen : epoch.finalized = false) {output : List JsonObject}
    (hcalls : (modelFunctionCalls output).filter
      (fun call => (rt.registry call.toolName).isSome) ≠ []) (epochId : String)
    (env : Circumstances) :
    ∃ result : ProgressEpoch.Finalized, openStart rt output epochId env s
      = ({ effects := .archived n (epoch.cancelPending "next_model_response") ::
            if (epoch.cancelPending "next_model_response").closureOnly rt then []
            else [.committed n] },
          { (s.modifyEpoch n (·.cancelPending "next_model_response")).modifyEpoch n
              (fun epoch => { epoch with finalized := true }) with
            active := none
            authority := result.authority
            store := result.store
            modelTurn := s.modelTurn + 1
            suspended := s.suspended ++ [⟨epochId, _, hcalls⟩] }) := by
  obtain ⟨result, hresult⟩ := finalizeEpoch_eq rt env n (epoch.cancelPending "next_model_response")
    (s.modifyEpoch n (·.cancelPending "next_model_response")) hopen
  refine ⟨result, ?_⟩
  have hclose : finalizeUnsettled rt "next_model_response" env s
      = finalizeEpoch rt env n (epoch.cancelPending "next_model_response")
          (s.modifyEpoch n (·.cancelPending "next_model_response")) := by
    rw [finalizeUnsettled, hactive]
    exact if_neg (by simp [hopen])
  rw [openStart]
  simp only
  rw [dif_neg hcalls, hclose, hresult]
  rfl

end

/-- A runtime with one tool, for bookkeeping. -/
def taskRuntime : Runtime Unit where
  runId := "run"
  scope := ⟨"scope", "bot"⟩
  budgetCheckpointId := none
  registry := fun toolName => if toolName = "update_task" then some ⟨"agent.task", false⟩ else none
  fingerprint := fun _ => ""
  canonicalToolArguments := id
  tacticSignature := fun toolName _ => toolName
  textOf := fun _ => ""
  explicitEvidenceKeys := fun _ => []
  failureEvidenceKey := fun _ _ => none
  materialProgressEvidence := fun _ _ _ => []
  combatProgressEvidence := fun _ => []
  sameBody := fun _ _ => true

/-- A model response with one call. -/
def taskResponse (callId : String) : List JsonObject :=
  [[("type", .str "function_call"), ("name", .str "update_task"), ("call_id", .str callId)]]

def noReads : OpenReads Unit := ⟨false, none, none, "budget"⟩

def calm : Circumstances := ⟨"dig", "now", false, false⟩

/-- Two calls of `open` that overlap at their awaits. -/
def overlapping : List (Call Unit) :=
  [.openStart (taskResponse "a") "e0" calm, .openStart (taskResponse "b") "e1" calm,
   .openFinish 0 noReads, .openFinish 0 noReads]

/-- Two calls of `open`, one after the other. -/
def consecutive : List (Call Unit) :=
  [.openStart (taskResponse "a") "e0" calm, .openFinish 0 noReads,
   .openStart (taskResponse "b") "e1" calm, .openFinish 0 noReads]

/-- The second response closes the first epoch, which is bookkeeping. -/
theorem exec_consecutive : ∃ epoch : Epoch Unit,
    (exec (step taskRuntime) {} consecutive).2.active = some 1
      ∧ (exec (step taskRuntime) {} consecutive).2.epochs[0]? = some epoch
      ∧ epoch.closureOnly taskRuntime = true := by
  have hcalls : (modelFunctionCalls (taskResponse "b")).filter
      (fun call => (taskRuntime.registry call.toolName).isSome) ≠ [] := by decide
  obtain ⟨result, hthird⟩ := openStart_eq taskRuntime
    (s := (exec (step taskRuntime) {} (consecutive.take 2)).2) rfl rfl hcalls "e1" calm
  have hsplit : consecutive = consecutive.take 2
      ++ [.openStart (taskResponse "b") "e1" calm, .openFinish 0 noReads] := rfl
  rw [hsplit, exec_append]
  simp only [exec, step, hthird]
  exact ⟨_, rfl, rfl, closureOnly_of (by decide)⟩

theorem consecutive_run : Run (step taskRuntime) openAlone {}
    (exec (step taskRuntime) {} consecutive).1 (exec (step taskRuntime) {} consecutive).2 := by
  have h : Run (step taskRuntime) openAlone {} [] {} := .start
  have h := h.next (Call.openStart (taskResponse "a") "e0" calm) rfl
  have h := h.next (Call.openFinish 0 noReads) trivial
  have h := h.next (Call.openStart (taskResponse "b") "e1" calm) rfl
  exact h.next (Call.openFinish 0 noReads) trivial

theorem epochs_once_consecutive :
    (Log.effects (exec (step taskRuntime) {} consecutive).1).countP (Effect.archives 0) = 1
      ∧ (Log.effects (exec (step taskRuntime) {} consecutive).1).countP (Effect.commits 0) = 0 := by
  obtain ⟨epoch, hactive, hget, hclosure⟩ := exec_consecutive
  have hrun := consecutive_run
  have hother : (exec (step taskRuntime) {} consecutive).2.active ≠ some 0 := by
    rw [hactive]
    decide
  have honce := (epochs_once (hrun.weaken fun _ _ _ _ => trivial)).2.2.2.2.2 hrun 0 epoch hget hother
  rwa [hclosure] at honce

/-- An epoch that two overlapping calls of `open` lose, and a finalized one
that is not committed. -/
theorem overlapping_lost :
    (∃ (log : Log Unit) (s : State Unit), Run (step taskRuntime) anyCall {} log s
        ∧ s.active = some 1 ∧ log.effects.countP (Effect.archives 0) = 0)
      ∧ ∃ (log : Log Unit) (s : State Unit), Run (step taskRuntime) openAlone {} log s
        ∧ s.active = some 1 ∧ log.effects.countP (Effect.commits 0) = 0 := by
  constructor
  · exact ⟨_, _, Run.of_inputs overlapping fun _ _ _ _ => trivial, by decide, by decide⟩
  · obtain ⟨epoch, hactive, hget, hclosure⟩ := exec_consecutive
    refine ⟨_, _, consecutive_run, hactive, ?_⟩
    rw [(accounts_run consecutive_run).commits, State.finalizedWith, hget]
    simp [hclosure]

end EpochAdapter

end MineBot
