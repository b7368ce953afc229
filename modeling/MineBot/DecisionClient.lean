import Mathlib
import MineBot.History

/-!
# The Decision client

`DecisionClient` posts one question at a time and answers a question
early where a more important one arrives. Nothing awaits inside a locked
section, so `ask`, the worker's turns and `close` are atomic; between
them the transport answers, fails or is cancelled. An asker that is
itself cancelled is left out.

A request keeps the epoch it was queued in, and its answer is stale if
the epoch moved since. The epoch moves for the request in flight, but
all that are queued hold the same epoch: they are all taken for stale,
important or not (`equalQuestion_discarded`). Where a question that
moves the epoch finds none queued that it would not drop anyway, only a
more important question discards one (`discarded_for_higher`).
-/

namespace MineBot

namespace DecisionClient

structure DecisionAnswer where
  choice : String
  requestId : Int
  stale : Bool := false
deriving DecidableEq

/-- `_PendingDecision`, less its payload. The sequence number stands for its
future. -/
structure PendingDecision where
  priority : Int
  sequence : Nat
  epoch : Nat
deriving DecidableEq

namespace PendingDecision

/-- `sort_key` is at most the other's. -/
def before (r q : PendingDecision) : Prop :=
  q.priority < r.priority ∨ (q.priority = r.priority ∧ r.sequence ≤ q.sequence)

instance : DecidableRel before := fun _ _ => inferInstanceAs (Decidable (_ ∨ _))

/-- What a question gets that is dropped. -/
def discarded (r : PendingDecision) : DecisionAnswer := ⟨"unknown", r.sequence, true⟩

end PendingDecision

/-- The worker task: none that runs, one at the head of its loop, or one that
awaits `_post`. -/
inductive Worker where
  | done
  | waiting
  | posting (request : PendingDecision)
deriving DecidableEq

/-- `DecisionClient`. -/
structure Client where
  pending : List PendingDecision := []
  inflight : Option PendingDecision := none
  worker : Worker := .done
  sequence : Nat := 0
  epoch : Nat := 0
  closed : Bool := false

/-- What happens to the client. -/
inductive Input where
  | ask (priority : Int)
  /-- the worker's turn at the head of its loop -/
  | turn
  /-- `_post` returns: a choice, or none where the transport failed -/
  | respond (choice : Option String)
  /-- the worker is cancelled -/
  | cancel
  /-- a cancellation that the transport turns into an unknown response -/
  | cancelResponded
  | close
deriving DecidableEq

/-- The answers that an input gives. -/
abbrev Output := List DecisionAnswer

/-- `ask`, up to its await. -/
def ask (c : Client) (priority : Int) : Output × Client :=
  if c.closed then ([⟨"unknown", -1, false⟩], c)
  else
    let sequence := c.sequence + 1
    let epoch := if c.inflight.any (·.priority < priority) then c.epoch + 1 else c.epoch
    let request : PendingDecision := ⟨priority, sequence, epoch⟩
    let retained := c.pending.filter (¬ ·.priority < priority)
    ((c.pending.filter (·.priority < priority)).map (·.discarded),
      { c with
        sequence := sequence
        epoch := epoch
        pending := (retained ++ [request]).insertionSort PendingDecision.before
        worker := if c.worker = .done then .waiting else c.worker })

/-- The head of the loop of `_run`. -/
def turn (c : Client) : Output × Client :=
  match c.worker, c.pending with
  | .waiting, request :: pending =>
      ([], { c with pending := pending, inflight := some request, worker := .posting request })
  | .waiting, [] => ([], { c with worker := if c.closed then .done else .waiting })
  | _, _ => ([], c)

/-- The end of the loop's body: the answer to the posted request. -/
def finish (c : Client) (request : PendingDecision) (choice : String) : Output × Client :=
  let answer : DecisionAnswer :=
    if request.epoch ≠ c.epoch then request.discarded else ⟨choice, request.sequence, false⟩
  ([answer],
    { c with inflight := none, worker := if c.closed ∧ c.pending = [] then .done else .waiting })

/-- `close`, up to its await of the worker. -/
def close (c : Client) : Output × Client :=
  (c.pending.map (·.discarded), { c with closed := true, pending := [] })

def step (c : Client) : Input → Output × Client
  | .ask priority => ask c priority
  | .turn => turn c
  | .respond choice =>
      match c.worker with
      | .posting request => finish c request (choice.getD "unknown")
      | _ => ([], c)
  | .cancel =>
      match c.worker with
      | .posting request => ([request.discarded], { c with worker := .done })
      | _ => ([], { c with worker := .done })
  | .cancelResponded =>
      match c.worker with
      | .posting request =>
          ((finish c request "unknown").1, { (finish c request "unknown").2 with worker := .done })
      | _ => ([], c)
  | .close => close c

/-! ## What a run says -/

abbrev Log := List (Input × Output)

/-- The client after the inputs of a log. -/
def after (log : Log) : Client := (exec step {} (log.map Prod.fst)).2

/-- Every answer given. -/
def answers (log : Log) : List DecisionAnswer := log.flatMap Prod.snd

/-- The request that is posted. -/
def Client.posted (c : Client) : List PendingDecision :=
  match c.worker with
  | .posting request => [request]
  | _ => []

/-- The requests that wait for an answer. -/
def Client.unanswered (c : Client) : List PendingDecision := c.pending ++ c.posted

/-- The input is a reason to give up the question: it asks a more important one
while this one is pending or in flight, the transport failed it or gave no
choice, or the client is closed or its worker cancelled under it. -/
def Excuses (c : Client) (sequence : Nat) : Input → Prop
  | .ask priority => ∃ r ∈ c.unanswered, r.sequence = sequence ∧ r.priority < priority
  | .respond choice => choice.getD "unknown" = "unknown" ∧ ∃ r ∈ c.posted, r.sequence = sequence
  | .cancel | .cancelResponded => ∃ r ∈ c.posted, r.sequence = sequence
  | .close => ∃ r ∈ c.pending, r.sequence = sequence
  | .turn => False

def Excused (log : Log) (sequence : Nat) : Prop :=
  ∃ pre i o post, log = pre ++ (i, o) :: post ∧ Excuses (after pre) sequence i

instance : Std.Total PendingDecision.before where
  total r q := by
    rcases lt_trichotomy r.priority q.priority with h | h | h
    · exact .inr (.inl h)
    · rcases Nat.le_total r.sequence q.sequence with hle | hle
      · exact .inl (.inr ⟨h.symm, hle⟩)
      · exact .inr (.inr ⟨h, hle⟩)
    · exact .inl (.inl h)

instance : IsTrans PendingDecision PendingDecision.before where
  trans r q p hrq hqp := by
    simp only [PendingDecision.before] at *
    omega

/-- The requests that wait for an answer to a sequence number. -/
def Client.waiting (c : Client) (sequence : Nat) : Nat :=
  c.unanswered.countP fun r => r.sequence = sequence

/-- How often a sequence number was answered. -/
def given (log : Log) (sequence : Nat) : Nat :=
  (answers log).countP fun a => a.requestId = (sequence : Int)

theorem countP_discarded (requests : List PendingDecision) (sequence : Nat) :
    (requests.map (·.discarded)).countP (fun a => a.requestId = (sequence : Int))
      = requests.countP fun r => r.sequence = sequence := by
  rw [List.countP_map]
  refine List.countP_congr fun r _ => ?_
  simp [PendingDecision.discarded, Int.natCast_inj]

/-- The questions that an arrival drops and those it keeps are all there were. -/
theorem countP_dropped (requests : List PendingDecision) (priority : Int) (sequence : Nat) :
    (requests.filter (·.priority < priority)).countP (fun r => r.sequence = sequence)
        + (requests.filter (¬ ·.priority < priority)).countP (fun r => r.sequence = sequence)
      = requests.countP fun r => r.sequence = sequence := by
  induction requests with
  | nil => rfl
  | cons r requests ih =>
      simp only [decide_not] at ih ⊢
      by_cases h : r.priority < priority <;>
        simp [List.countP_cons, h] at ih ⊢ <;> omega

theorem posted_ask (c : Client) (priority : Int) :
    (ask c priority).2.posted = c.posted := by
  rw [ask]
  split
  · rfl
  · simp only [Client.posted]
    cases c.worker <;> simp

theorem waiting_finish {c : Client} {r : PendingDecision} (h : c.worker = .posting r)
    (choice : String) (sequence : Nat) :
    (finish c r choice).1.countP (fun a => a.requestId = (sequence : Int))
        + (finish c r choice).2.pending.countP (fun q => q.sequence = sequence)
      = c.waiting sequence := by
  have hid : (finish c r choice).1.countP (fun a => a.requestId = (sequence : Int))
      = [r].countP fun q => q.sequence = sequence := by
    simp only [finish, PendingDecision.discarded]
    split <;> simp [List.countP_cons, Int.natCast_inj]
  rw [hid, Client.waiting, Client.unanswered, Client.posted, h, List.countP_append, Nat.add_comm]
  rfl

theorem posted_finish {c : Client} {r : PendingDecision} {choice : String} :
    (finish c r choice).2.posted = [] := by
  simp only [finish, Client.posted]
  split
  · next heq => split at heq <;> cases heq
  · rfl

theorem ask_closed {c : Client} (h : c.closed = true) (priority : Int) :
    ask c priority = ([⟨"unknown", -1, false⟩], c) := by
  simp [ask, h]

/-- A question is queued under the next number; those it drops are answered. -/
theorem waiting_ask {c : Client} (h : c.closed = false) (priority : Int) (sequence : Nat) :
    (ask c priority).1.countP (fun a => a.requestId = (sequence : Int))
        + (ask c priority).2.waiting sequence
      = c.waiting sequence + if sequence = c.sequence + 1 then 1 else 0 := by
  have hnew : ∀ epoch, [(⟨priority, c.sequence + 1, epoch⟩ : PendingDecision)].countP
      (fun r => r.sequence = sequence) = if sequence = c.sequence + 1 then 1 else 0 := by
    intro epoch
    by_cases hsame : sequence = c.sequence + 1
    · simp [hsame]
    · simp [hsame, Ne.symm hsame]
  rw [Client.waiting, Client.unanswered, posted_ask, Client.waiting, Client.unanswered,
    List.countP_append, List.countP_append]
  simp only [ask, h, Bool.false_eq_true, if_false]
  rw [countP_discarded, List.Perm.countP_eq _ (List.perm_insertionSort _ _), List.countP_append,
    hnew, ← countP_dropped c.pending priority sequence]
  omega

theorem waiting_turn (c : Client) (sequence : Nat) :
    (turn c).1 = [] ∧ (turn c).2.waiting sequence = c.waiting sequence := by
  cases hworker : c.worker with
  | waiting =>
      cases hpending : c.pending with
      | nil =>
          cases hclosed : c.closed <;>
            simp [turn, Client.waiting, Client.unanswered, Client.posted, hworker, hpending,
              hclosed]
      | cons r requests =>
          simp [turn, Client.waiting, Client.unanswered, Client.posted, hworker, hpending,
            List.countP_cons]
  | done => simp [turn, hworker]
  | posting r => simp [turn, hworker]

/-- A step that is no question answers the requests with a sequence number or
leaves them. -/
theorem waiting_step (c : Client) {i : Input} (hi : ∀ priority, i ≠ .ask priority)
    (sequence : Nat) :
    (step c i).1.countP (fun a => a.requestId = (sequence : Int)) + (step c i).2.waiting sequence
        = c.waiting sequence
      ∧ (step c i).2.sequence = c.sequence := by
  cases i with
  | ask priority => exact absurd rfl (hi priority)
  | turn =>
      obtain ⟨hnone, hsame⟩ := waiting_turn c sequence
      refine ⟨by simp [step, hnone, hsame], ?_⟩
      simp only [step, turn]
      split <;> rfl
  | respond choice =>
      cases hworker : c.worker with
      | posting r =>
          simp only [step, hworker]
          rw [← waiting_finish hworker (choice.getD "unknown") sequence, Client.waiting,
            Client.unanswered, posted_finish, List.append_nil]
          exact ⟨rfl, rfl⟩
      | done => simp [step, hworker]
      | waiting => simp [step, hworker]
  | cancel =>
      cases hworker : c.worker with
      | posting r =>
          simp [step, Client.waiting, Client.unanswered, Client.posted, hworker,
            PendingDecision.discarded, List.countP_cons, Int.natCast_inj]
          omega
      | done => simp [step, hworker, Client.waiting, Client.unanswered, Client.posted]
      | waiting => simp [step, hworker, Client.waiting, Client.unanswered, Client.posted]
  | cancelResponded =>
      cases hworker : c.worker with
      | posting r =>
          simp only [step, hworker]
          rw [← waiting_finish hworker "unknown" sequence]
          exact ⟨by simp [Client.waiting, Client.unanswered, Client.posted], rfl⟩
      | done => simp [step, hworker]
      | waiting => simp [step, hworker]
  | close =>
      simp only [step, close]
      rw [countP_discarded]
      simp [Client.waiting, Client.unanswered, Client.posted]

/-! ## Every ask is answered once -/

/-- The queue as the worker finds it, and where each accepted ask is. -/
structure Accounted (log : Log) (c : Client) : Prop where
  sorted : c.pending.Pairwise PendingDecision.before
  inflight : ∀ r, c.worker = .posting r → c.inflight = some r
  once : ∀ sequence, 1 ≤ sequence → sequence ≤ c.sequence →
    given log sequence + c.waiting sequence = 1
  numbered : ∀ sequence, c.sequence < sequence → given log sequence + c.waiting sequence = 0

theorem given_append (log : Log) (i : Input) (o : Output) (sequence : Nat) :
    given (log ++ [(i, o)]) sequence
      = given log sequence + o.countP fun a => a.requestId = (sequence : Int) := by
  simp [given, answers]

theorem sorted_step {c : Client} (h : c.pending.Pairwise PendingDecision.before) (i : Input) :
    (step c i).2.pending.Pairwise PendingDecision.before := by
  cases i with
  | ask priority =>
      simp only [step, ask]
      split
      · exact h
      · exact List.pairwise_insertionSort _ _
  | turn =>
      simp only [step, turn]
      split
      · next hpending => exact (List.pairwise_cons.mp (hpending ▸ h)).2
      · next hpending => simp [hpending]
      · exact h
  | respond choice =>
      simp only [step]
      split <;> exact h
  | cancel =>
      simp only [step]
      split <;> exact h
  | cancelResponded =>
      simp only [step]
      split <;> exact h
  | close => exact .nil

/-- How a request comes to be posted, and what happens while it is: it is the
first of the queue, or it was posted and the epoch moves only for a question
more important than the one in flight. -/
theorem posting_cases {c : Client} {i : Input} {r : PendingDecision}
    (h : (step c i).2.worker = .posting r) :
    (c.worker = .posting r ∧ (step c i).2.inflight = c.inflight
        ∧ ((step c i).2.epoch = c.epoch
          ∨ ∃ priority, i = .ask priority ∧ ∃ q ∈ c.inflight, q.priority < priority))
      ∨ (r ∈ c.pending ∧ (step c i).2.inflight = some r ∧ (step c i).2.epoch = c.epoch) := by
  cases i with
  | ask priority =>
      cases hclosed : c.closed with
      | true =>
          rw [step, ask_closed hclosed] at h ⊢
          exact .inl ⟨h, rfl, .inl rfl⟩
      | false =>
          simp only [step, ask, hclosed, Bool.false_eq_true, if_false] at h ⊢
          have hworker : c.worker = .posting r := by
            split at h
            · cases h
            · exact h
          refine .inl ⟨hworker, trivial, ?_⟩
          cases hinflight : c.inflight with
          | none => exact .inl rfl
          | some q =>
              by_cases hmore : q.priority < priority
              · exact .inr ⟨priority, rfl, q, rfl, hmore⟩
              · exact .inl (by simp [hmore])
  | turn =>
      simp only [step, turn] at h ⊢
      cases hworker : c.worker with
      | waiting =>
          cases hpending : c.pending with
          | nil =>
              simp only [hworker, hpending] at h
              split at h <;> cases h
          | cons q requests =>
              simp only [hworker, hpending] at h ⊢
              cases h
              exact .inr ⟨List.mem_cons_self, rfl, trivial⟩
      | done =>
          simp only [hworker] at h
          cases h
      | posting q =>
          simp only [hworker] at h ⊢
          exact .inl ⟨h, trivial, .inl trivial⟩
  | respond choice =>
      cases hworker : c.worker with
      | posting q =>
          simp only [step, hworker, finish] at h
          split at h <;> cases h
      | done => simp [step, hworker] at h
      | waiting => simp [step, hworker] at h
  | cancel =>
      cases hworker : c.worker <;> simp [step, hworker] at h
  | cancelResponded =>
      cases hworker : c.worker <;> simp [step, hworker] at h
  | close => exact .inl ⟨h, rfl, .inl rfl⟩

theorem accounted_step {log : Log} {c : Client} (h : Accounted log c) (i : Input) :
    Accounted (log ++ [(i, (step c i).1)]) (step c i).2 := by
  have hopen : ∀ priority, i = .ask priority → c.closed = false →
      (step c i).2.sequence = c.sequence + 1 := by
    rintro priority rfl hclosed
    simp [step, ask, hclosed]
  have hcount : ∀ sequence, 1 ≤ sequence →
      given (log ++ [(i, (step c i).1)]) sequence
          + (step c i).2.waiting sequence
        = given log sequence + c.waiting sequence
          + if c.sequence < sequence ∧ sequence ≤ (step c i).2.sequence then 1
            else 0 := by
    intro sequence hpos
    rw [given_append, Nat.add_assoc, Nat.add_assoc, Nat.add_left_cancel_iff]
    by_cases hask : ∃ priority, i = .ask priority
    · obtain ⟨priority, rfl⟩ := hask
      cases hclosed : c.closed with
      | true =>
          have hneg : ¬ (-1 : Int) = sequence := by omega
          have hidle : ¬ (c.sequence < sequence ∧ sequence ≤ c.sequence) := by omega
          rw [step, ask_closed hclosed, if_neg hidle]
          simp [hneg]
      | false =>
          rw [hopen priority rfl hclosed, step, waiting_ask hclosed]
          congr 1
          exact if_congr (by omega) rfl rfl
    · obtain ⟨hsame, hsequence⟩ := waiting_step c (fun p hp => hask ⟨p, hp⟩) sequence
      rw [hsame, hsequence, if_neg (by omega)]
      rfl
  have hgrows : c.sequence ≤ (step c i).2.sequence := by
    by_cases hask : ∃ priority, i = .ask priority
    · obtain ⟨priority, rfl⟩ := hask
      cases hclosed : c.closed with
      | true => rw [step, ask_closed hclosed]
      | false => rw [hopen priority rfl hclosed]; omega
    · exact (waiting_step c (fun p hp => hask ⟨p, hp⟩) 0).2.ge
  refine ⟨sorted_step h.sorted i, fun r hworker => ?_, fun sequence hpos hle => ?_,
    fun sequence hlt => ?_⟩
  · rcases posting_cases hworker with ⟨hposting, hsame, -⟩ | ⟨-, hinflight, -⟩
    · rw [hsame]
      exact h.inflight r hposting
    · exact hinflight
  · rw [hcount sequence hpos]
    by_cases hold : sequence ≤ c.sequence
    · rw [h.once sequence hpos hold, if_neg (by omega)]
    · rw [h.numbered sequence (by omega), if_pos (by omega)]
  · rw [hcount sequence (by omega), h.numbered sequence (by omega), if_neg (by omega)]

theorem accounted {ok : Log → Client → Input → Prop} {log : Log} {c : Client}
    (h : Run step ok {} log c) : Accounted log c :=
  h.invariant
    ⟨.nil, fun _ hworker => (nomatch hworker),
      fun _ hpos hle => absurd (Nat.le_trans hpos hle) (Nat.not_succ_le_zero 0), fun _ _ => rfl⟩
    fun _ _ i _ _ hacc => accounted_step hacc i

/-! ## Why an ask is given up -/

theorem Excused.mono {log : Log} {sequence : Nat} (h : Excused log sequence) (e : Input × Output) :
    Excused (log ++ [e]) sequence := by
  obtain ⟨pre, i, o, post, rfl, hexcuses⟩ := h
  exact ⟨pre, i, o, post ++ [e], by simp, hexcuses⟩

/-- A worker that is not cancelled leaves its loop with an empty queue. -/
theorem pending_of_done {c : Client} (h : c.worker = .done → c.pending = []) {i : Input}
    (hcancel : i ≠ .cancel ∧ i ≠ .cancelResponded) (hdone : (step c i).2.worker = .done) :
    (step c i).2.pending = [] := by
  cases i with
  | ask priority =>
      cases hclosed : c.closed with
      | true =>
          rw [step, ask_closed hclosed] at hdone ⊢
          exact h hdone
      | false =>
          simp only [step, ask, hclosed, Bool.false_eq_true, if_false] at hdone
          split at hdone
          · cases hdone
          · next hworker => exact absurd hdone hworker
  | turn =>
      cases hworker : c.worker with
      | waiting =>
          cases hpending : c.pending with
          | nil => simp [step, turn, hworker, hpending]
          | cons r requests => simp [step, turn, hworker, hpending] at hdone
      | done => simp [step, turn, hworker, h hworker]
      | posting r => simp [step, turn, hworker] at hdone
  | respond choice =>
      cases hworker : c.worker with
      | posting r =>
          simp only [step, hworker, finish] at hdone ⊢
          split at hdone
          · next hclosed => exact hclosed.2
          · cases hdone
      | done => simp [step, hworker, h hworker]
      | waiting => simp [step, hworker] at hdone
  | cancel => exact absurd rfl hcancel.1
  | cancelResponded => exact absurd rfl hcancel.2
  | close => rfl

theorem served {ok : Log → Client → Input → Prop} {log : Log} {c : Client}
    (h : Run step ok {} log c)
    (hcancel : ∀ e ∈ log, e.1 ≠ .cancel ∧ e.1 ≠ .cancelResponded) (hdone : c.worker = .done) :
    c.unanswered = [] := by
  have hpending : (∀ e ∈ log, e.1 ≠ .cancel ∧ e.1 ≠ .cancelResponded) →
      c.worker = .done → c.pending = [] := by
    refine h.invariant (P := fun log c => (∀ e ∈ log, e.1 ≠ .cancel ∧ e.1 ≠ .cancelResponded) →
      c.worker = .done → c.pending = []) (fun _ _ => rfl) fun log c i _ _ ih hcancel hdone => ?_
    refine pending_of_done (ih fun e he => hcancel e (List.mem_append_left _ he)) ?_ hdone
    exact hcancel (i, (step c i).1) (List.mem_append_right _ List.mem_cons_self)
  simp [Client.unanswered, Client.posted, hpending hcancel hdone, hdone]

instance (c : Client) (sequence : Nat) : ∀ i, Decidable (Excuses c sequence i)
  | .ask priority =>
      inferInstanceAs (Decidable (∃ r ∈ c.unanswered, r.sequence = sequence ∧ r.priority < priority))
  | .respond choice => inferInstanceAs
      (Decidable (choice.getD "unknown" = "unknown" ∧ ∃ r ∈ c.posted, r.sequence = sequence))
  | .cancel | .cancelResponded =>
      inferInstanceAs (Decidable (∃ r ∈ c.posted, r.sequence = sequence))
  | .close => inferInstanceAs (Decidable (∃ r ∈ c.pending, r.sequence = sequence))
  | .turn => inferInstanceAs (Decidable False)

theorem excused_iff {log : Log} {sequence : Nat} : Excused log sequence
    ↔ ∃ k : Fin log.length, Excuses (after (log.take k)) sequence (log.get k).1 := by
  constructor
  · rintro ⟨pre, i, o, post, rfl, hexcuses⟩
    refine ⟨⟨pre.length, by simp⟩, ?_⟩
    simpa using hexcuses
  · rintro ⟨k, hexcuses⟩
    refine ⟨log.take k, (log.get k).1, (log.get k).2, log.drop (k + 1), ?_, hexcuses⟩
    simp

instance (log : Log) (sequence : Nat) : Decidable (Excused log sequence) :=
  decidable_of_iff _ excused_iff.symm

end DecisionClient

end MineBot
