import MineBot.History
import MineBot.RecoveryAdmission
import MineBot.Table

/-!
# Histories of recovery attempts

The counter of recovery attempts lives nowhere: each reservation
recomputes it from whatever the ledger's payloads say at that moment.
Here is what the payloads can say after any history of reservations,
confirmations and reconciliations. The grants made so far come in
episodes (`Episodes`), the ledger holds exactly these grants, each with
its confirmation flag (`Accounted`), and so a reservation computes its
answer from the latest of them (`Follows`).
-/

namespace MineBot

open Table

/-! ## Episodes -/

/-- `1, 2, ..., n`. -/
def countUp (n : Nat) : List Int := (List.range n).map fun i : Nat => (i : Int) + 1

theorem countUp_succ (n : Nat) : countUp (n + 1) = countUp n ++ [(n : Int) + 1] := by
  simp [countUp, List.range_succ]

theorem nodup_countUp (n : Nat) : (countUp n).Nodup :=
  List.nodup_range.map fun _ _ h => by omega

theorem le_of_mem_countUp {n : Nat} {i : Int} (h : i ∈ countUp n) : i ≤ n := by
  simp only [countUp, List.mem_map, List.mem_range] at h
  obtain ⟨k, hk, rfl⟩ := h
  omega

/-- The admissions of one owner in the order they were granted: each
opens an episode of its own or continues the last one. -/
inductive Episodes : List RecoveryAdmission → Prop where
  | nil : Episodes []
  | opens {as : List RecoveryAdmission} (a : RecoveryAdmission) : Episodes as →
      a.sequence = as.length + 1 → a.attempt = 1 → 1 ≤ a.limit →
      (∀ b ∈ as, b.episodeId ≠ a.episodeId) → Episodes (as ++ [a])
  | continues {as : List RecoveryAdmission} (a b : RecoveryAdmission) : Episodes (as ++ [b]) →
      a.sequence = (as ++ [b]).length + 1 → a.attempt = b.attempt + 1 →
      a.attempt ≤ a.limit → a.limit ≤ b.limit → a.episodeId = b.episodeId →
      Episodes (as ++ [b] ++ [a])

/-- The admissions carry the sequence numbers `1, 2, ..., n`. -/
theorem Episodes.sequences {as : List RecoveryAdmission} (h : Episodes as) :
    as.map (·.sequence) = countUp as.length := by
  induction h with
  | nil => rfl
  | opens a _ hseq _ _ _ ih => simp [ih, hseq, countUp_succ]
  | continues a b _ hseq _ _ _ _ ih =>
      rw [List.map_append, ih, List.map_singleton, hseq, ← countUp_succ]
      simp only [List.length_append, List.length_singleton]

theorem Episodes.sequence_last {as : List RecoveryAdmission} {b : RecoveryAdmission}
    (h : Episodes (as ++ [b])) : b.sequence = as.length + 1
      ∧ as.map (·.sequence) = countUp as.length := by
  have hsequences := h.sequences
  rw [List.map_append, List.length_append, List.length_singleton, countUp_succ] at hsequences
  obtain ⟨has, hb⟩ := List.append_inj' hsequences rfl
  exact ⟨(List.cons.inj hb).1, has⟩

/-- A maximal run of consecutive admissions with one episode id. -/
structure IsEpisode (as run : List RecoveryAdmission) (before after : List RecoveryAdmission) :
    Prop where
  split : as = before ++ run ++ after
  nonempty : run ≠ []
  same : ∀ a ∈ run, ∀ b ∈ run, a.episodeId = b.episodeId
  starts : ∀ a ∈ before.getLast?, ∀ b ∈ run, a.episodeId ≠ b.episodeId
  ends : ∀ a ∈ after.head?, ∀ b ∈ run, a.episodeId ≠ b.episodeId

/-- The attempts of one episode. -/
structure Bounded (run : List RecoveryAdmission) : Prop where
  attempts : run.map (·.attempt) = countUp run.length
  limits : run.Pairwise fun a b => b.limit ≤ a.limit
  bounded : ∀ a ∈ run, (run.length : Int) ≤ a.limit

theorem Bounded.singleton {a : RecoveryAdmission} (hattempt : a.attempt = 1)
    (hlimit : 1 ≤ a.limit) : Bounded [a] where
  attempts := by simp [hattempt, countUp]
  limits := List.pairwise_singleton _ _
  bounded := fun b hb => by
    obtain rfl := List.mem_singleton.mp hb
    simpa using hlimit

theorem Bounded.snoc {run : List RecoveryAdmission} {a b : RecoveryAdmission}
    (h : Bounded (run ++ [b])) (hattempt : a.attempt = b.attempt + 1)
    (hfits : a.attempt ≤ a.limit) (hlimit : a.limit ≤ b.limit) :
    Bounded (run ++ [b] ++ [a]) := by
  have hlast : b.attempt = run.length + 1 := by
    have hattempts := h.attempts
    rw [List.map_append, List.length_append, List.length_singleton, countUp_succ] at hattempts
    exact (List.cons.inj (List.append_inj' hattempts rfl).2).1
  have hle : ∀ c ∈ run ++ [b], a.limit ≤ c.limit := by
    intro c hc
    rcases List.mem_append.mp hc with hc | hc
    · exact hlimit.trans ((List.pairwise_append.mp h.limits).2.2 c hc b List.mem_cons_self)
    · obtain rfl := List.mem_singleton.mp hc
      exact hlimit
  refine ⟨?_, ?_, ?_⟩
  · rw [List.map_append, h.attempts, List.map_singleton, hattempt, hlast]
    simp [countUp_succ]
  · refine List.pairwise_append.mpr ⟨h.limits, List.pairwise_singleton _ _, ?_⟩
    intro c hc d hd
    obtain rfl := List.mem_singleton.mp hd
    exact hle c hc
  · intro c hc
    have hlength : ((run ++ [b] ++ [a]).length : Int) = a.attempt := by
      simp only [List.length_append, List.length_singleton]
      omega
    rw [hlength]
    rcases List.mem_append.mp hc with hc | hc
    · exact hfits.trans (hle c hc)
    · obtain rfl := List.mem_singleton.mp hc
      exact hfits

/-- **Attempts are bounded per episode.** -/
theorem Episodes.bounded {as : List RecoveryAdmission} (h : Episodes as) :
    ∀ {run before after}, IsEpisode as run before after → Bounded run := by
  -- a prefix that still has the whole run has it as a maximal run
  have hshorter : ∀ {as run before after : List RecoveryAdmission} {a : RecoveryAdmission},
      IsEpisode (as ++ [a]) run before (after ++ [a]) → IsEpisode as run before after := by
    intro as run before after a he
    refine ⟨?_, he.nonempty, he.same, he.starts, fun b hb => he.ends b ?_⟩
    · have hsplit := he.split
      rw [← List.append_assoc] at hsplit
      exact List.append_cancel_right hsplit
    · cases after with
      | nil => cases hb
      | cons c after => exact hb
  induction h with
  | nil =>
      intro run before after he
      exact absurd (List.append_eq_nil_iff.mp (List.append_eq_nil_iff.mp he.split.symm).1).2
        he.nonempty
  | opens a _ _ hattempt hlimit hfresh ih =>
      intro run before after he
      rcases List.eq_nil_or_concat after with rfl | ⟨after, c, rfl⟩
      · obtain ⟨run, c, rfl⟩ := (List.eq_nil_or_concat run).resolve_left he.nonempty
        rw [List.concat_eq_append] at he ⊢
        have hsplit := he.split
        rw [List.append_nil, ← List.append_assoc] at hsplit
        obtain ⟨has, hc⟩ := List.append_inj' hsplit rfl
        obtain rfl := (List.cons.inj hc).1
        -- an earlier admission of the run would have the fresh id
        obtain rfl : run = [] := List.eq_nil_iff_forall_not_mem.mpr fun b hb =>
          hfresh b (has ▸ List.mem_append_right _ hb)
            (he.same b (List.mem_append_left _ hb) a (by simp))
        exact .singleton hattempt hlimit
      · rw [List.concat_eq_append] at he
        have hsplit := he.split
        rw [← List.append_assoc] at hsplit
        obtain rfl := (List.cons.inj (List.append_inj' hsplit rfl).2).1
        exact ih (hshorter he)
  | @continues as a b _ _ hattempt hfits hlimit hsame ih =>
      intro run before after he
      rcases List.eq_nil_or_concat after with rfl | ⟨after, c, rfl⟩
      · obtain ⟨run, c, rfl⟩ := (List.eq_nil_or_concat run).resolve_left he.nonempty
        rw [List.concat_eq_append] at he ⊢
        have hsplit := he.split
        rw [List.append_nil, ← List.append_assoc] at hsplit
        obtain ⟨has, hc⟩ := List.append_inj' hsplit rfl
        obtain rfl := (List.cons.inj hc).1
        rcases List.eq_nil_or_concat run with rfl | ⟨run, c, rfl⟩
        · -- the run would start after an admission of its own episode
          rw [List.append_nil] at has
          refine absurd hsame.symm (he.starts b ?_ a (by simp))
          rw [← has]
          simp
        · rw [List.concat_eq_append] at he has ⊢
          rw [← List.append_assoc] at has
          obtain ⟨has', hc⟩ := List.append_inj' has rfl
          obtain rfl := (List.cons.inj hc).1
          have hrun : IsEpisode (as ++ [b]) (run ++ [b]) before [] := by
            refine ⟨?_, by simp, ?_, ?_, by simp⟩
            · rw [has']
              simp
            · exact fun x hx y hy => he.same x (List.mem_append_left _ hx) y
                (List.mem_append_left _ hy)
            · exact fun x hx y hy => he.starts x hx y (List.mem_append_left _ hy)
          exact (ih hrun).snoc hattempt hfits hlimit
      · rw [List.concat_eq_append] at he
        have hsplit := he.split
        rw [← List.append_assoc] at hsplit
        obtain rfl := (List.cons.inj (List.append_inj' hsplit rfl).2).1
        exact ih (hshorter he)

/-! ## What may happen to a record -/

def HistoryRecord.owner? (r : HistoryRecord) : Option Json := r.payload.get? "admission_task_id"

def HistoryRecord.admission? (r : HistoryRecord) : Option Json :=
  r.payload.get? "recovery_admission"

def HistoryRecord.setPayload (payload : JsonObject) (r : HistoryRecord) : HistoryRecord :=
  { r with payload := payload }

/-- The record is bound to an owner that equals `o` in Python. -/
def HistoryRecord.OwnedBy (r : HistoryRecord) (o : Json) : Prop :=
  ∃ bound, r.owner? = some bound ∧ bound.pyEq o = true

/-- Between `v` and `v'` an admission was confirmed, or nothing
happened. -/
def ConfirmedTo (v v' : Option Json) : Prop :=
  v' = v ∨ ∃ fields, v = some (.obj fields)
    ∧ v' = some (.obj (Dict.set fields "confirmed" (.bool true)))

/-- What every change of a record but a grant keeps. -/
structure Advances (r r' : HistoryRecord) : Prop where
  intentId : r'.intentId = r.intentId
  owned : ∀ o, r.OwnedBy o → r'.OwnedBy o
  admission : ConfirmedTo r.admission? r'.admission?

theorem ConfirmedTo.trans {u v w : Option Json} (h : ConfirmedTo u v) (h' : ConfirmedTo v w) :
    ConfirmedTo u w := by
  rcases h with rfl | ⟨fields, rfl, rfl⟩
  · exact h'
  · rcases h' with rfl | ⟨fields', heq, rfl⟩
    · exact .inr ⟨fields, rfl, rfl⟩
    · obtain rfl := Json.obj.inj (Option.some.inj heq)
      exact .inr ⟨fields, rfl, by rw [Dict.set_set]⟩

namespace Advances

variable {r r' r'' : HistoryRecord}

theorem refl (r : HistoryRecord) : Advances r r := ⟨rfl, fun _ h => h, .inl rfl⟩

theorem trans (h : Advances r r') (h' : Advances r' r'') : Advances r r'' where
  intentId := h'.intentId.trans h.intentId
  owned := fun o ho => h'.owned o (h.owned o ho)
  admission := h.admission.trans h'.admission

/-- A change that leaves id and payload alone. -/
theorem of_payload (hid : r'.intentId = r.intentId) (hpayload : r'.payload = r.payload) :
    Advances r r' where
  intentId := hid
  owned := fun _ ho => by
    simpa only [HistoryRecord.OwnedBy, HistoryRecord.owner?, hpayload] using ho
  admission := .inl (by simp only [HistoryRecord.admission?, hpayload])

/-- A write beside the recovery fields. -/
theorem of_set {key : String} (value : Json) (howner : key ≠ "admission_task_id")
    (hadmission : key ≠ "recovery_admission") :
    Advances r (r.setPayload (r.payload.set key value)) where
  intentId := rfl
  owned := fun _ ⟨bound, hbound, heq⟩ =>
    ⟨bound, (Dict.get?_set_of_ne _ howner.symm _).trans hbound, heq⟩
  admission := .inl (Dict.get?_set_of_ne _ hadmission.symm _)

end Advances

/-- Records stay in place, each advancing. -/
def Progress (H H' : List HistoryRecord) : Prop := List.Forall₂ Advances H H'

namespace Progress

variable {H H' H'' : List HistoryRecord}

theorem refl (H : List HistoryRecord) : Progress H H := by
  induction H with
  | nil => exact .nil
  | cons r H ih => exact .cons (.refl r) ih

theorem trans (h : Progress H H') (h' : Progress H' H'') : Progress H H'' := by
  induction h generalizing H'' with
  | nil => exact h'
  | cons hr _ ih =>
      cases h' with
      | cons hr' h' => exact .cons (hr.trans hr') (ih h')

theorem updateWhere {p : HistoryRecord → Bool} {f : HistoryRecord → HistoryRecord}
    (hf : ∀ r ∈ H, p r = true → Advances r (f r)) : Progress H (Table.updateWhere p f H) := by
  induction H with
  | nil => exact .nil
  | cons r H ih =>
      refine .cons ?_ (ih fun r' hr' => hf r' (List.mem_cons_of_mem _ hr'))
      dsimp only
      split
      · next hp => exact hf r List.mem_cons_self hp
      · exact .refl r

theorem keyed (h : Progress H H') (hkeyed : Keyed (·.intentId) H) :
    Keyed (·.intentId) H' := by
  have hids : H'.map (·.intentId) = H.map (·.intentId) := by
    clear hkeyed
    induction h with
    | nil => rfl
    | cons hr _ ih => rw [List.map_cons, List.map_cons, ih, hr.intentId]
  rw [Keyed, hids]
  exact hkeyed

end Progress

/-! ## What may happen to the history -/

/-- A granted reservation: whose it is, what was asked for, what was
granted. -/
structure Grant where
  owner : Json
  intentId : String
  maxAttempts : Int
  admission : RecoveryAdmission
deriving DecidableEq

/-- The payload of an intent is rewritten. -/
def writeRecord (intentId : String) (payload : JsonObject) (H : List HistoryRecord) :
    List HistoryRecord :=
  updateWhere (fun r => r.intentId = intentId) (·.setPayload payload) H

/-- One call, seen on the history: it makes no grant, or it grants what
`next_recovery_admission` computes. -/
inductive HistoryStep : List HistoryRecord → Option Grant → List HistoryRecord → Prop where
  | quiet {H H' : List HistoryRecord} (new : List HistoryRecord) : Progress H H' →
      (∀ r ∈ new, r.admission? = none) → Keyed (·.intentId) (H' ++ new) →
      HistoryStep H none (H' ++ new)
  | grant {H : List HistoryRecord} (g : Grant) (r : HistoryRecord) : r ∈ H →
      r.intentId = g.intentId → r.owner? = some g.owner →
      nextRecoveryAdmission r.payload H g.intentId g.maxAttempts = .ok (some g.admission) →
      HistoryStep H (some g) (writeRecord g.intentId
        (r.payload.set "recovery_admission" g.admission.toJson) H)

theorem HistoryStep.of_progress {H H' : List HistoryRecord} (h : Progress H H')
    (hkeyed : Keyed (·.intentId) H) : HistoryStep H none H' := by
  have hstep := HistoryStep.quiet [] h nofun (by simpa using h.keyed hkeyed)
  rwa [List.append_nil] at hstep

theorem HistoryStep.keyed {H H' : List HistoryRecord} {grant : Option Grant}
    (h : HistoryStep H grant H') (hkeyed : Keyed (·.intentId) H) : Keyed (·.intentId) H' := by
  cases h with
  | quiet _ _ _ hkeyed' => exact hkeyed'
  | grant g r _ _ _ _ =>
      have hids : (writeRecord g.intentId (r.payload.set "recovery_admission" g.admission.toJson)
          H).map (·.intentId) = H.map (·.intentId) := map_key_updateWhere fun _ => rfl
      rw [Keyed, hids]
      exact hkeyed

/-! ## What a reservation reads off the history -/

theorem positiveField_int {value : JsonObject} {name : String} {n m : Int}
    (hname : value.get? name = some (.int n)) (h : positiveField value name = .ok m) : m = n := by
  simp only [positiveField, hname] at h
  split at h
  · cases h
  · exact (Except.ok.inj h).symm

theorem validatedAdmission_toJson {x y : RecoveryAdmission}
    (h : validatedAdmission x.toJson = .ok y) : y = x := by
  obtain ⟨episodeId, sequence, attempt, limit, confirmed⟩ := x
  simp only [RecoveryAdmission.toJson, validatedAdmission, bind, Except.bind] at h
  split at h
  · cases h
  · next s hs =>
      split at h
      · cases h
      · next a ha =>
          split at h
          · cases h
          · next l hl =>
              have hseq : s = sequence := positiveField_int rfl hs
              have hattempt : a = attempt := positiveField_int rfl ha
              have hlimit : l = limit := positiveField_int rfl hl
              change (if episodeId = "" ∨ l < a then Except.error RecoveryError.invalidState
                else Except.ok (⟨episodeId, s, a, l, confirmed⟩ : RecoveryAdmission)) = .ok y at h
              split at h
              · cases h
              · rw [← Except.ok.inj h, hseq, hattempt, hlimit]

/-- What the loop takes from one record. -/
theorem priorAdmission_spec {owner : Json} {intentId : String} {r : HistoryRecord}
    {res : Option RecoveryAdmission} (h : priorAdmission owner intentId r = .ok res) :
    (r.intentId ≠ intentId → r.OwnedBy owner → ∀ v, r.admission? = some v →
        ∃ a, validatedAdmission v = .ok a ∧ res = some a)
      ∧ ∀ a, res = some a → r.intentId ≠ intentId ∧ r.OwnedBy owner
        ∧ ∃ v, r.admission? = some v ∧ validatedAdmission v = .ok a := by
  unfold priorAdmission at h
  split at h
  · next hid =>
      obtain rfl := Except.ok.inj h
      exact ⟨fun hne => absurd hid hne, fun a ha => absurd ha.symm (Option.some_ne_none a)⟩
  · next hid =>
      split at h
      · next hbound =>
          obtain rfl := Except.ok.inj h
          refine ⟨?_, fun a ha => absurd ha.symm (Option.some_ne_none a)⟩
          rintro - ⟨bound, hsome, -⟩
          rw [HistoryRecord.owner?, hbound] at hsome
          cases hsome
      · next bound hbound =>
          split at h
          · next hequal =>
              split at h
              · next v hv =>
                  cases hvalid : validatedAdmission v with
                  | error e => rw [hvalid] at h; cases h
                  | ok a =>
                      rw [hvalid] at h
                      obtain rfl := Except.ok.inj h
                      refine ⟨fun _ _ w hw => ?_, fun b hb => ?_⟩
                      · obtain rfl := Option.some.inj (hv.symm.trans hw)
                        exact ⟨a, hvalid, rfl⟩
                      · obtain rfl := Option.some.inj hb
                        exact ⟨hid, ⟨bound, hbound, hequal⟩, v, hv, hvalid⟩
              · next hv =>
                  refine ⟨fun _ _ w hw => absurd (hw.symm.trans hv) (Option.some_ne_none w), ?_⟩
                  split at h
                  · cases h
                  · obtain rfl := Except.ok.inj h
                    exact fun a ha => absurd ha.symm (Option.some_ne_none a)
          · next hequal =>
              obtain rfl := Except.ok.inj h
              refine ⟨?_, fun a ha => absurd ha.symm (Option.some_ne_none a)⟩
              rintro - ⟨bound', hsome, hequal'⟩
              obtain rfl := Option.some.inj (hbound.symm.trans hsome)
              exact absurd hequal' hequal

theorem priorAdmissions_cons {owner : Json} {intentId : String} {r : HistoryRecord}
    {H : List HistoryRecord} {l : List RecoveryAdmission}
    (h : priorAdmissions owner intentId (r :: H) = .ok l) :
    ∃ res rest, priorAdmission owner intentId r = .ok res
      ∧ priorAdmissions owner intentId H = .ok rest ∧ l = res.toList ++ rest := by
  simp only [priorAdmissions, bind, Except.bind] at h
  split at h
  · cases h
  · next res hres =>
      split at h
      · cases h
      · next rest hrest => exact ⟨res, rest, hres, hrest, (Except.ok.inj h).symm⟩

/-- **The loop of `next_recovery_admission`** collects the admissions of
the owner's other records, all of which are valid. -/
theorem priorAdmissions_spec {owner : Json} {intentId : String} {H : List HistoryRecord}
    {l : List RecoveryAdmission} (h : priorAdmissions owner intentId H = .ok l) :
    (∀ r ∈ H, r.intentId ≠ intentId → r.OwnedBy owner → ∀ v, r.admission? = some v →
        ∃ a ∈ l, validatedAdmission v = .ok a)
      ∧ ∀ a ∈ l, ∃ r ∈ H, r.intentId ≠ intentId ∧ r.OwnedBy owner
        ∧ ∃ v, r.admission? = some v ∧ validatedAdmission v = .ok a := by
  induction H generalizing l with
  | nil =>
      obtain rfl := Except.ok.inj h
      exact ⟨fun r hr => absurd hr List.not_mem_nil, fun a ha => absurd ha List.not_mem_nil⟩
  | cons r H ih =>
      obtain ⟨res, rest, hres, hrest, rfl⟩ := priorAdmissions_cons h
      obtain ⟨hhead, hhead'⟩ := priorAdmission_spec hres
      obtain ⟨htail, htail'⟩ := ih hrest
      constructor
      · intro r' hr' hid howned v hv
        rcases List.mem_cons.mp hr' with rfl | hr'
        · obtain ⟨a, hvalid, rfl⟩ := hhead hid howned v hv
          exact ⟨a, by simp, hvalid⟩
        · obtain ⟨a, ha, hvalid⟩ := htail r' hr' hid howned v hv
          exact ⟨a, List.mem_append_right _ ha, hvalid⟩
      · intro a ha
        rcases List.mem_append.mp ha with ha | ha
        · exact ⟨r, List.mem_cons_self, hhead' a (Option.mem_toList.mp ha)⟩
        · obtain ⟨r', hr', hspec⟩ := htail' a ha
          exact ⟨r', List.mem_cons_of_mem _ hr', hspec⟩

theorem nextRecoveryAdmission_inv {payload : JsonObject} {H : List HistoryRecord}
    {intentId : String} {maxAttempts : Int} {res : Option RecoveryAdmission}
    (h : nextRecoveryAdmission payload H intentId maxAttempts = .ok res) :
    1 ≤ maxAttempts ∧ ∃ owner previous, payload.get? "admission_task_id" = some owner
      ∧ payload.get? "recovery_admission" = none
      ∧ priorAdmissions owner intentId H = .ok previous
      ∧ res = followingAdmission (previous.argmax (·.sequence)) intentId maxAttempts := by
  unfold nextRecoveryAdmission at h
  split at h
  · cases h
  · next hmax =>
      split at h
      · cases h
      · next owner howner =>
          split at h
          · cases h
          · split at h
            · cases h
            · next hreplay =>
                split at h
                · cases h
                · next previous hprevious =>
                    split at h
                    · refine ⟨not_lt.mp hmax, owner, previous, howner, ?_, hprevious,
                        (Except.ok.inj h).symm⟩
                      simpa [Dict.has] using hreplay
                    · cases h

/-! ### The admission after the latest -/

theorem followingAdmission_first {intentId : String} {maxAttempts : Int}
    {a : RecoveryAdmission} (h : followingAdmission none intentId maxAttempts = some a) :
    a = ⟨intentId, 1, 1, maxAttempts, false⟩ ∧ 1 ≤ maxAttempts := by
  simp only [followingAdmission, Option.filter_none] at h
  split at h
  · cases h
  · next hmax => exact ⟨(Option.some.inj h).symm, not_lt.mp hmax⟩

/-- After a confirmation the next attempt opens an episode. -/
theorem followingAdmission_confirmed {l a : RecoveryAdmission} {intentId : String}
    {maxAttempts : Int} (hconfirmed : l.confirmed = true)
    (h : followingAdmission (some l) intentId maxAttempts = some a) :
    a = ⟨intentId, l.sequence + 1, 1, maxAttempts, false⟩ ∧ 1 ≤ maxAttempts := by
  simp only [followingAdmission, Option.filter_some, hconfirmed, Bool.not_true,
    Bool.false_eq_true, if_false] at h
  split at h
  · cases h
  · next hmax => exact ⟨(Option.some.inj h).symm, not_lt.mp hmax⟩

/-- Without one it continues the episode, within its limit. -/
theorem followingAdmission_open {l a : RecoveryAdmission} {intentId : String}
    {maxAttempts : Int} (hopen : l.confirmed = false)
    (h : followingAdmission (some l) intentId maxAttempts = some a) :
    a = ⟨l.episodeId, l.sequence + 1, l.attempt + 1, min maxAttempts l.limit, false⟩
      ∧ l.attempt + 1 ≤ min maxAttempts l.limit := by
  simp only [followingAdmission, Option.filter_some, hopen, Bool.not_false, if_true] at h
  split at h
  · cases h
  · next hmax => exact ⟨(Option.some.inj h).symm, not_lt.mp hmax⟩

/-! ## The account -/

/-- The admissions of one owner, in the order they were granted. -/
def grantsTo (o : Json) (G : List Grant) : List RecoveryAdmission :=
  (G.filter fun g => g.owner.pyEq o).map (·.admission)

def RecoveryAdmission.flag (c : Bool) (a : RecoveryAdmission) : RecoveryAdmission :=
  { a with confirmed := c }

/-- The history holds the grant, with this confirmation flag. -/
def Recorded (H : List HistoryRecord) (g : Grant) (c : Bool) : Prop :=
  ∃ r ∈ H, r.intentId = g.intentId ∧ r.OwnedBy g.owner
    ∧ r.admission? = some (g.admission.flag c).toJson

/-- The grants made so far are what the history holds. -/
structure Accounted (G : List Grant) (H : List HistoryRecord) : Prop where
  keyed : Keyed (·.intentId) H
  once : Keyed (·.intentId) G
  recorded : ∀ g ∈ G, ∃ c, Recorded H g c
  granted : ∀ r ∈ H, ∀ v, r.admission? = some v → ∃ g ∈ G, g.intentId = r.intentId
  episodeIds : ∀ g ∈ G, ∃ g' ∈ G, g'.intentId = g.admission.episodeId
  episodes : ∀ o, Episodes (grantsTo o G)

/-- The grant to the owner that no other grant to it exceeds. -/
structure IsLatest (o : Json) (G : List Grant) (l : Grant) : Prop where
  mem : l ∈ G
  owner : l.owner.pyEq o = true
  highest : ∀ g ∈ G, g.owner.pyEq o = true → g.admission.sequence ≤ l.admission.sequence

/-- The grant is what follows the owner's latest one, as the history has
it. -/
inductive Follows (G : List Grant) (H : List HistoryRecord) (g : Grant) : Prop where
  | first : (∀ l ∈ G, l.owner.pyEq g.owner = false) →
      followingAdmission none g.intentId g.maxAttempts = some g.admission → Follows G H g
  | after (l : Grant) (c : Bool) : IsLatest g.owner G l → Recorded H l c →
      followingAdmission (some (l.admission.flag c)) g.intentId g.maxAttempts
        = some g.admission → Follows G H g

section Account

variable {G : List Grant} {H H' : List HistoryRecord} {o : Json} {l g : Grant}

theorem mem_grantsTo {a : RecoveryAdmission} :
    a ∈ grantsTo o G ↔ ∃ g ∈ G, g.owner.pyEq o = true ∧ g.admission = a := by
  simp only [grantsTo, List.mem_map, List.mem_filter, and_assoc]

theorem grantsTo_append_singleton (o : Json) (G : List Grant) (g : Grant) :
    grantsTo o (G ++ [g])
      = grantsTo o G ++ if g.owner.pyEq o then [g.admission] else [] := by
  rw [grantsTo, List.filter_append, List.map_append]
  by_cases h : g.owner.pyEq o = true <;> simp [grantsTo, h]

theorem HistoryRecord.OwnedBy.pyEq {r : HistoryRecord} {o o' : Json} (h : r.OwnedBy o)
    (h' : r.OwnedBy o') : o.pyEq o' = true := by
  obtain ⟨bound, hbound, heq⟩ := h
  obtain ⟨bound', hbound', heq'⟩ := h'
  obtain rfl := Option.some.inj (hbound.symm.trans hbound')
  rw [Json.pyEq_iff] at *
  exact heq.symm.trans heq'

theorem grantsTo_congr {o' : Json} (h : o.pyEq o' = true) : grantsTo o G = grantsTo o' G := by
  unfold grantsTo
  congr 1
  refine List.filter_congr fun g _ => ?_
  rw [Json.pyEq_congr h]

/-- The latest grant is the last one. -/
theorem IsLatest.last (h : IsLatest o G l) (hepisodes : Episodes (grantsTo o G)) :
    ∃ as, grantsTo o G = as ++ [l.admission] := by
  have hmem : l.admission ∈ grantsTo o G := mem_grantsTo.mpr ⟨l, h.mem, h.owner, rfl⟩
  obtain ⟨as, b, hconcat⟩ := (List.eq_nil_or_concat (grantsTo o G)).resolve_left
    (List.ne_nil_of_mem hmem)
  rw [List.concat_eq_append] at hconcat
  rw [hconcat] at hepisodes hmem
  obtain ⟨hlast, hearlier⟩ := hepisodes.sequence_last
  refine ⟨as, hconcat.trans ?_⟩
  -- the last one has the highest number, and no other reaches it
  have hb : b ∈ grantsTo o G := by rw [hconcat]; simp
  obtain ⟨g, hg, howner, rfl⟩ := mem_grantsTo.mp hb
  have hle := h.highest g hg howner
  rcases List.mem_append.mp hmem with hmem | hsame
  · have hseq := le_of_mem_countUp (hearlier ▸ List.mem_map_of_mem hmem)
    omega
  · rw [List.mem_singleton.mp hsame]

theorem Recorded.unique (hkeyed : Keyed (·.intentId) H) {c : Bool} (h : Recorded H g c)
    {r : HistoryRecord} (hr : r ∈ H) (hid : r.intentId = g.intentId) :
    r.OwnedBy g.owner ∧ r.admission? = some (g.admission.flag c).toJson := by
  obtain ⟨r', hr', hid', howned, hadmission⟩ := h
  obtain rfl := hkeyed.unique hr hr' (hid.trans hid'.symm)
  exact ⟨howned, hadmission⟩

/-- An intent that holds no admission has had no grant. -/
theorem Accounted.fresh (h : Accounted G H) {r : HistoryRecord} (hr : r ∈ H)
    (hnone : r.admission? = none) : ∀ l ∈ G, l.intentId ≠ r.intentId := by
  intro l hl hid
  obtain ⟨c, hrecorded⟩ := h.recorded l hl
  have hsome := (hrecorded.unique h.keyed hr hid.symm).2
  rw [hnone] at hsome
  cases hsome

/-- **A reservation reads the latest grant off the history.** -/
theorem Accounted.follows (h : Accounted G H) {r : HistoryRecord} (hr : r ∈ H)
    (hid : r.intentId = g.intentId) (howner : r.owner? = some g.owner)
    (hnext : nextRecoveryAdmission r.payload H g.intentId g.maxAttempts
      = .ok (some g.admission)) : Follows G H g ∧ r.admission? = none := by
  obtain ⟨-, owner, previous, hbound, hnone, hprevious, hgrant⟩ := nextRecoveryAdmission_inv hnext
  obtain rfl : owner = g.owner := Option.some.inj (hbound.symm.trans howner)
  have hfresh := h.fresh hr hnone
  obtain ⟨hvalid, horigin⟩ := priorAdmissions_spec hprevious
  -- a grant to the owner is among what the loop collected, and nothing else is
  have hcollected : ∀ l ∈ G, l.owner.pyEq g.owner = true →
      ∃ c, Recorded H l c ∧ l.admission.flag c ∈ previous := by
    intro l hl howner'
    obtain ⟨c, hrecorded⟩ := h.recorded l hl
    obtain ⟨r', hr', hid', ⟨bound, hb, heq⟩, hadmission⟩ := hrecorded
    have hne : r'.intentId ≠ g.intentId := fun heq => hfresh l hl (by rw [← hid', heq, hid])
    have howned : r'.OwnedBy g.owner := by
      refine ⟨bound, hb, ?_⟩
      rw [Json.pyEq_iff] at *
      exact heq.trans howner'
    obtain ⟨a, ha, hread⟩ := hvalid r' hr' hne howned _ hadmission
    rw [validatedAdmission_toJson hread] at ha
    exact ⟨c, ⟨r', hr', hid', ⟨bound, hb, heq⟩, hadmission⟩, ha⟩
  have hsource : ∀ a ∈ previous, ∃ l ∈ G, l.owner.pyEq g.owner = true
      ∧ ∃ c, Recorded H l c ∧ a = l.admission.flag c := by
    intro a ha
    obtain ⟨r', hr', -, howned, v, hv, hread⟩ := horigin a ha
    obtain ⟨l, hl, hid'⟩ := h.granted r' hr' v hv
    obtain ⟨c, hrecorded⟩ := h.recorded l hl
    obtain ⟨howned', hadmission⟩ := hrecorded.unique h.keyed hr' hid'.symm
    obtain rfl := Option.some.inj (hv.symm.trans hadmission)
    exact ⟨l, hl, howned'.pyEq howned, c, hrecorded, validatedAdmission_toJson hread⟩
  refine ⟨?_, hnone⟩
  cases hlatest : previous.argmax (·.sequence) with
  | none =>
      rw [hlatest] at hgrant
      refine .first (fun l hl => Bool.eq_false_iff.mpr fun howner' => ?_) hgrant.symm
      obtain ⟨c, -, ha⟩ := hcollected l hl howner'
      rw [List.argmax_eq_none.mp hlatest] at ha
      exact List.not_mem_nil ha
  | some y =>
      rw [hlatest] at hgrant
      obtain ⟨l, hl, howner', c, hrecorded, rfl⟩ := hsource y (List.argmax_mem hlatest)
      refine .after l c ⟨hl, howner', fun g' hg' howner'' => ?_⟩ hrecorded hgrant.symm
      obtain ⟨c', -, ha⟩ := hcollected g' hg' howner''
      have hle : (g'.admission.flag c').sequence ≤ (l.admission.flag c).sequence :=
        List.le_of_mem_argmax ha hlatest
      exact hle

/-- A grant opens an episode or continues the last one. -/
theorem Follows.episodes (h : Follows G H g) (hacc : Accounted G H)
    (hfresh : ∀ l ∈ G, l.intentId ≠ g.intentId) :
    Episodes (grantsTo g.owner G ++ [g.admission]) := by
  have hnew : ∀ b ∈ grantsTo g.owner G, b.episodeId ≠ g.intentId := by
    intro b hb heq
    obtain ⟨l, hl, -, rfl⟩ := mem_grantsTo.mp hb
    obtain ⟨g', hg', hid⟩ := hacc.episodeIds l hl
    exact hfresh g' hg' (hid.trans heq)
  cases h with
  | first hnone hfollowing =>
      obtain ⟨hadmission, hmax⟩ := followingAdmission_first hfollowing
      have hempty : grantsTo g.owner G = [] := by
        refine List.eq_nil_iff_forall_not_mem.mpr fun a ha => ?_
        obtain ⟨l, hl, howner, -⟩ := mem_grantsTo.mp ha
        rw [hnone l hl] at howner
        cases howner
      rw [hempty, hadmission]
      exact .opens _ .nil rfl rfl hmax (by simp)
  | after l c hlatest _ hfollowing =>
      obtain ⟨as, hlast⟩ := hlatest.last (hacc.episodes _)
      have hepisodes := hacc.episodes g.owner
      have hsequence : l.admission.sequence = (grantsTo g.owner G).length := by
        have hepisodes' := hepisodes
        rw [hlast] at hepisodes' ⊢
        rw [hepisodes'.sequence_last.1, List.length_append]
        rfl
      cases c with
      | true =>
          obtain ⟨hadmission, hmax⟩ := followingAdmission_confirmed rfl hfollowing
          rw [hadmission]
          refine .opens _ hepisodes ?_ rfl hmax hnew
          dsimp only [RecoveryAdmission.flag]
          rw [hsequence]
      | false =>
          obtain ⟨hadmission, hmax⟩ := followingAdmission_open rfl hfollowing
          rw [hadmission, hlast]
          rw [hlast] at hepisodes hsequence
          refine .continues _ l.admission hepisodes ?_ rfl hmax (min_le_right _ _) rfl
          dsimp only [RecoveryAdmission.flag]
          rw [hsequence]

theorem Follows.episodeId (h : Follows G H g) (hacc : Accounted G H) :
    ∃ g' ∈ G ++ [g], g'.intentId = g.admission.episodeId := by
  cases h with
  | first _ hfollowing =>
      exact ⟨g, by simp, by rw [(followingAdmission_first hfollowing).1]⟩
  | after l c hlatest _ hfollowing =>
      cases c with
      | true => exact ⟨g, by simp, by rw [(followingAdmission_confirmed rfl hfollowing).1]⟩
      | false =>
          obtain ⟨g', hg', hid⟩ := hacc.episodeIds l hlatest.mem
          refine ⟨g', List.mem_append_left _ hg', hid.trans ?_⟩
          rw [(followingAdmission_open rfl hfollowing).1]
          rfl

end Account

section Steps

variable {G : List Grant} {H H' : List HistoryRecord} {o : Json} {l g : Grant}

theorem ConfirmedTo.flag {a : RecoveryAdmission} {c : Bool} {v : Option Json}
    (h : ConfirmedTo (some (a.flag c).toJson) v) : ∃ c', v = some (a.flag c').toJson := by
  rcases h with rfl | ⟨fields, heq, rfl⟩
  · exact ⟨c, rfl⟩
  · obtain rfl := Json.obj.inj (Option.some.inj heq)
    exact ⟨true, rfl⟩

theorem Advances.recorded {r r' : HistoryRecord} (h : Advances r r') {c : Bool}
    (howned : r.OwnedBy g.owner) (hadmission : r.admission? = some (g.admission.flag c).toJson) :
    r'.OwnedBy g.owner ∧ ∃ c', r'.admission? = some (g.admission.flag c').toJson :=
  ⟨h.owned _ howned, (hadmission ▸ h.admission).flag⟩

theorem Advances.unreserved {r r' : HistoryRecord} (h : Advances r r')
    (hnone : r.admission? = none) : r'.admission? = none := by
  rcases h.admission with heq | ⟨fields, heq, -⟩
  · rw [heq, hnone]
  · rw [hnone] at heq
    cases heq

theorem Accounted.quiet (h : Accounted G H) {new : List HistoryRecord} (hprogress : Progress H H')
    (hnew : ∀ r ∈ new, r.admission? = none) (hkeyed : Keyed (·.intentId) (H' ++ new)) :
    Accounted G (H' ++ new) where
  keyed := hkeyed
  once := h.once
  recorded := fun g hg => by
    obtain ⟨c, r, hr, hid, howned, hadmission⟩ := h.recorded g hg
    obtain ⟨r', hr', hadvances⟩ := paired_of_mem_left hprogress hr
    obtain ⟨howned', c', hadmission'⟩ := hadvances.recorded howned hadmission
    exact ⟨c', r', List.mem_append_left _ hr', hadvances.intentId.trans hid, howned',
      hadmission'⟩
  granted := fun r' hr' v hv => by
    rcases List.mem_append.mp hr' with hr' | hr'
    · obtain ⟨r, hr, hadvances⟩ := paired_of_mem_right hprogress hr'
      cases hsome : r.admission? with
      | none => rw [hadvances.unreserved hsome] at hv; cases hv
      | some w =>
          obtain ⟨g, hg, hid⟩ := h.granted r hr w hsome
          exact ⟨g, hg, hid.trans hadvances.intentId.symm⟩
    · rw [hnew r' hr'] at hv
      cases hv
  episodeIds := h.episodeIds
  episodes := h.episodes

theorem Accounted.grant (h : Accounted G H) {r : HistoryRecord} (hr : r ∈ H)
    (hid : r.intentId = g.intentId) (howner : r.owner? = some g.owner)
    (hnext : nextRecoveryAdmission r.payload H g.intentId g.maxAttempts
      = .ok (some g.admission)) :
    Accounted (G ++ [g]) (writeRecord g.intentId
      (r.payload.set "recovery_admission" g.admission.toJson) H) := by
  obtain ⟨hfollows, hnone⟩ := h.follows hr hid howner hnext
  have hfresh : ∀ l ∈ G, l.intentId ≠ g.intentId := hid ▸ h.fresh hr hnone
  have hwritten : r.setPayload (r.payload.set "recovery_admission" g.admission.toJson)
      ∈ writeRecord g.intentId (r.payload.set "recovery_admission" g.admission.toJson) H :=
    mem_updateWhere_of hr (by simpa using hid)
  refine ⟨?_, ?_, ?_, ?_, ?_, ?_⟩
  · exact (HistoryStep.grant g r hr hid howner hnext).keyed h.keyed
  · exact h.once.append_singleton hfresh
  · intro l hl
    rcases List.mem_append.mp hl with hl | hl
    · obtain ⟨c, r', hr', hid', howned, hadmission⟩ := h.recorded l hl
      exact ⟨c, r', mem_updateWhere_of_not hr' (by simpa [hid'] using hfresh l hl), hid', howned,
        hadmission⟩
    · obtain rfl := List.mem_singleton.mp hl
      refine ⟨l.admission.confirmed, _, hwritten, hid, ⟨l.owner, ?_, Json.pyEq_refl _⟩, ?_⟩
      · exact (Dict.get?_set_of_ne _ (by decide) _).trans howner
      · exact Dict.get?_set_self ..
  · intro r' hr' v hv
    obtain ⟨r'', hr'', rfl⟩ := mem_updateWhere.mp hr'
    by_cases hsame : r''.intentId = g.intentId
    · exact ⟨g, by simp, by rw [if_pos (by simpa using hsame)]; exact hsame.symm⟩
    · rw [if_neg (by simpa using hsame)] at hv ⊢
      obtain ⟨l, hl, hid'⟩ := h.granted r'' hr'' v hv
      exact ⟨l, List.mem_append_left _ hl, hid'⟩
  · intro l hl
    rcases List.mem_append.mp hl with hl | hl
    · obtain ⟨g', hg', hid'⟩ := h.episodeIds l hl
      exact ⟨g', List.mem_append_left _ hg', hid'⟩
    · obtain rfl := List.mem_singleton.mp hl
      exact hfollows.episodeId h
  · intro o
    rw [grantsTo_append_singleton]
    split
    · next howned =>
        rw [← grantsTo_congr howned]
        exact hfollows.episodes h hfresh
    · rw [List.append_nil]
      exact h.episodes o

/-- **One call keeps the account.** -/
theorem Accounted.step (h : Accounted G H) {grant : Option Grant}
    (hstep : HistoryStep H grant H') : Accounted (G ++ grant.toList) H' := by
  cases hstep with
  | quiet new hprogress hnew hkeyed => simpa using h.quiet hprogress hnew hkeyed
  | grant g r hr hid howner hnext => exact h.grant hr hid howner hnext

theorem IsLatest.unique (hepisodes : Episodes (grantsTo o G)) {l' : Grant}
    (h : IsLatest o G l) (h' : IsLatest o G l') : l = l' := by
  have hnodup : ((G.filter fun g => g.owner.pyEq o).map (·.admission.sequence)).Nodup := by
    have hsequences := hepisodes.sequences
    rw [grantsTo, List.map_map] at hsequences
    exact hsequences ▸ (nodup_countUp _)
  refine List.inj_on_of_nodup_map hnodup (List.mem_filter.mpr ⟨h.mem, h.owner⟩)
    (List.mem_filter.mpr ⟨h'.mem, h'.owner⟩) ?_
  exact le_antisymm (h'.highest l h.mem h.owner) (h.highest l' h'.mem h'.owner)

/-- A new episode opens only behind a confirmed admission. -/
theorem Follows.confirmed (h : Follows G H g) (hacc : Accounted G H)
    (hlatest : IsLatest g.owner G l)
    (hopens : g.admission.episodeId ≠ l.admission.episodeId) : Recorded H l true := by
  cases h with
  | first hnone _ =>
      have howner := hlatest.owner
      rw [hnone l hlatest.mem] at howner
      cases howner
  | after l' c hlatest' hrecorded hfollowing =>
      obtain rfl := hlatest.unique (hacc.episodes _) hlatest'
      cases c with
      | true => exact hrecorded
      | false =>
          rw [(followingAdmission_open rfl hfollowing).1] at hopens
          exact absurd rfl hopens

end Steps

/-! ## Denials -/

/-- Two histories that hold the same admissions of the same owners. -/
structure SameAccount (H H' : List HistoryRecord) : Prop where
  records : H'.map (fun r => (r.intentId, r.owner?, r.admission?))
    = H.map (fun r => (r.intentId, r.owner?, r.admission?))
  answers : ∀ payload intentId maxAttempts res,
    nextRecoveryAdmission payload H intentId maxAttempts = .ok res →
    nextRecoveryAdmission payload H' intentId maxAttempts = .ok res

/-- The mark a denied reservation leaves on its record. -/
def deny (r : HistoryRecord) : HistoryRecord :=
  r.setPayload (r.payload.set "recovery_admission_denied" (.bool true))

theorem deny_payload (r : HistoryRecord) :
    (deny r).owner? = r.owner? ∧ (deny r).admission? = r.admission? :=
  ⟨Dict.get?_set_of_ne _ (by decide) _, Dict.get?_set_of_ne _ (by decide) _⟩

/-- The mark only takes a refusal away. -/
theorem priorAdmission_deny {owner : Json} {intentId : String} {r : HistoryRecord}
    {res : Option RecoveryAdmission} (h : priorAdmission owner intentId r = .ok res) :
    priorAdmission owner intentId (deny r) = .ok res := by
  have howner : (deny r).payload.get? "admission_task_id" = r.payload.get? "admission_task_id" :=
    (deny_payload r).1
  have hadmission : (deny r).payload.get? "recovery_admission"
      = r.payload.get? "recovery_admission" := (deny_payload r).2
  have hdenied : (deny r).payload.get? "recovery_admission_denied" = some (.bool true) :=
    Dict.get?_set_self ..
  have hid : (deny r).intentId = r.intentId := rfl
  unfold priorAdmission at h ⊢
  simp only [howner, hadmission, hdenied, hid, ne_eq, not_true_eq_false, false_and,
    if_false] at h ⊢
  split at h
  · next hsame => rw [if_pos hsame]; exact h
  · next hother =>
      rw [if_neg hother]
      split at h
      · exact h
      · next bound _ =>
          split at h
          · next hequal =>
              rw [if_pos hequal]
              split at h
              · exact h
              · split at h
                · cases h
                · exact h
          · next hequal => rw [if_neg hequal]; exact h

/-- **A denied reservation changes nothing that a later one goes by.** -/
theorem sameAccount_deny (p : HistoryRecord → Bool) (H : List HistoryRecord) :
    SameAccount H (updateWhere p deny H) where
  records := by
    rw [updateWhere, List.map_map]
    refine List.map_congr_left fun r _ => ?_
    simp only [Function.comp_apply]
    split
    · rw [(deny_payload r).1, (deny_payload r).2]
      rfl
    · rfl
  answers := fun payload intentId maxAttempts res h => by
    have hprior : ∀ owner H l, priorAdmissions owner intentId H = .ok l →
        priorAdmissions owner intentId (updateWhere p deny H) = .ok l := by
      intro owner H
      induction H with
      | nil => exact fun l hl => hl
      | cons r H ih =>
          intro l hl
          obtain ⟨head, rest, hhead, hrest, rfl⟩ := priorAdmissions_cons hl
          have hhead' : priorAdmission owner intentId (if p r then deny r else r) = .ok head := by
            split
            · exact priorAdmission_deny hhead
            · exact hhead
          change priorAdmissions owner intentId (_ :: updateWhere p deny H) = _
          simp only [priorAdmissions, hhead', ih rest hrest]
          rfl
    unfold nextRecoveryAdmission at h ⊢
    split at h
    · cases h
    · split at h
      · cases h
      · next owner _ =>
          split at h
          · cases h
          · split at h
            · cases h
            · cases hprevious : priorAdmissions owner intentId H with
              | error e => rw [hprevious] at h; cases h
              | ok previous =>
                  rw [hprevious] at h
                  rw [if_neg ‹_›, if_neg ‹_›, if_neg ‹_›, hprior owner H previous hprevious]
                  exact h

/-! ## Systems that keep such a history -/

section Systems

variable {σ ι ω : Type*} {step : σ → ι → ω × σ} {ok : List (ι × ω) → σ → ι → Prop} {s₀ : σ}

/-- What a system's runs guarantee about recovery attempts. `grant?`
reads the granted reservations off the log, `Denied` holds of the denied
ones, and `history` is what the system's records say. -/
structure RecoveryAccounting (runs : List (ι × ω) → σ → Prop) (grant? : ι × ω → Option Grant)
    (Denied : ι × ω → Prop) (history : σ → List HistoryRecord) (log : List (ι × ω)) : Prop where
  /-- the admissions of an owner are numbered `1, 2, ..., n` -/
  sequences : ∀ o, (grantsTo o (log.filterMap grant?)).map (·.sequence)
    = countUp (grantsTo o (log.filterMap grant?)).length
  /-- the attempts of an episode are numbered and bounded -/
  episodes : ∀ {o run before after},
    IsEpisode (grantsTo o (log.filterMap grant?)) run before after → Bounded run
  /-- a new episode opens only when the latest admission is confirmed -/
  opened : ∀ {pre entry post s g l}, log = pre ++ entry :: post → runs pre s →
    grant? entry = some g → IsLatest g.owner (pre.filterMap grant?) l →
    g.admission.episodeId ≠ l.admission.episodeId → Recorded (history s) l true
  /-- a grant goes by the latest admission alone -/
  determined : ∀ {pre entry post s g}, log = pre ++ entry :: post → runs pre s →
    grant? entry = some g → Follows (pre.filterMap grant?) (history s) g
  /-- a denied reservation leaves all admissions as they were -/
  denied : ∀ {pre entry post s s'}, log = pre ++ entry :: post → runs pre s →
    runs (pre ++ [entry]) s' → Denied entry → SameAccount (history s) (history s')

/-- A system all of whose steps are steps of the history accounts for
its recovery attempts. -/
theorem recoveryAccounting_of_steps {grant? : ι × ω → Option Grant} {Denied : ι × ω → Prop}
    {history : σ → List HistoryRecord} (hstart : history s₀ = [])
    (hstep : ∀ log s i, Run step ok s₀ log s → ok log s i →
      HistoryStep (history s) (grant? (i, (step s i).1)) (history (step s i).2))
    (hdenied : ∀ log s i, Run step ok s₀ log s → ok log s i → Denied (i, (step s i).1) →
      SameAccount (history s) (history (step s i).2))
    {log : List (ι × ω)} {s : σ} (h : Run step ok s₀ log s) :
    RecoveryAccounting (Run step ok s₀) grant? Denied history log := by
  have hacc : ∀ {log s}, Run step ok s₀ log s →
      Accounted (log.filterMap grant?) (history s) := by
    intro log s hrun
    refine hrun.invariant (P := fun log s => Accounted (log.filterMap grant?) (history s)) ?_ ?_
    · rw [hstart]
      exact ⟨List.nodup_nil, List.nodup_nil, by simp, by simp, by simp, fun _ => .nil⟩
    · intro log s i hrun hok hacc
      have hnext := hacc.step (hstep log s i hrun hok)
      rw [List.filterMap_append]
      convert hnext using 2
      cases hg : grant? (i, (step s i).1) <;> simp [hg]
  -- an entry of the log is a step from the state its prefix leads to
  have hentry : ∀ {pre entry post s}, log = pre ++ entry :: post → Run step ok s₀ pre s →
      ok pre s entry.1 ∧ entry.2 = (step s entry.1).1 := by
    rintro pre ⟨i, output⟩ post s rfl hpre
    obtain ⟨s₁, hpre', hpost⟩ := h.split
    obtain rfl := hpre.state_unique hpre'
    obtain ⟨rfl, hok, -⟩ := hpost.head
    exact ⟨hok, rfl⟩
  have hfollows : ∀ {pre entry post s g}, log = pre ++ entry :: post → Run step ok s₀ pre s →
      grant? entry = some g → Follows (pre.filterMap grant?) (history s) g := by
    rintro pre ⟨i, output⟩ post s g hlog hpre hgrant
    obtain ⟨hok, rfl⟩ : ok pre s i ∧ output = (step s i).1 := hentry hlog hpre
    have hnext := hstep pre s i hpre hok
    rw [hgrant] at hnext
    generalize history (step s i).2 = H' at hnext
    cases hnext with
    | grant _ r hr hid howner hnext => exact ((hacc hpre).follows hr hid howner hnext).1
  refine ⟨fun o => ((hacc h).episodes o).sequences, fun he => ((hacc h).episodes _).bounded he,
    fun hlog hpre hgrant hlatest hopens =>
      (hfollows hlog hpre hgrant).confirmed (hacc hpre) hlatest hopens,
    hfollows, ?_⟩
  rintro pre ⟨i, output⟩ post s s' hlog hpre hnext hentry'
  obtain ⟨hok, rfl⟩ : ok pre s i ∧ output = (step s i).1 := hentry hlog hpre
  obtain rfl := (hpre.next i hok).state_unique hnext
  exact hdenied pre s i hpre hok hentry'

end Systems

end MineBot
