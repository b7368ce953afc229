import MineBot.BodyEvents
import MineBot.History

/-!
# The cursor and the intents

A poll moves the Body's cursor before it enqueues, and writes the persisted
one after. While every enqueue of the process has returned, the material
events up to the Body's cursor have their intents (`Good.held`), so the
write is safe. After one has raised only a new process is: it starts from
the persisted cursor and the Body returns the events again.
-/

namespace MineBot

namespace BodyEventPump

/-! ## Keys -/

/-- The key of the event is stored uncut. -/
def KeyFits (epoch : String) (seq : Int) : Prop := (dedupeKey epoch seq).length ≤ 500

theorem toList_toString_natCast (n : Nat) : (toString (n : Int)).toList = Nat.toDigits 10 n := by
  change (Nat.repr n).toList = _
  simp [Nat.repr]

theorem dedupeKey_natCast (epoch : String) (n : Nat) :
    dedupeKey epoch n
      = .ofList (("body:".toList ++ epoch.toList ++ [':']) ++ Nat.toDigits 10 n) := by
  rw [← String.toList_inj, String.toList_ofList, ← toList_toString_natCast]
  simp [dedupeKey, toString]

theorem isPySpace_toDigits (n : Nat) : ∀ d ∈ Nat.toDigits 10 n, isPySpace d = false := by
  intro d hd
  have hdigit : d.isDigit = true := Nat.isDigit_of_mem_toDigits (by decide) (by decide) hd
  simp only [Char.isDigit, Bool.and_eq_true, decide_eq_true_eq] at hdigit
  have hlow : 48 ≤ d.toNat := UInt32.le_iff_toNat_le.mp hdigit.1
  have hhigh : d.toNat ≤ 57 := UInt32.le_iff_toNat_le.mp hdigit.2
  rw [isPySpace]
  simp only [Bool.or_eq_false_iff, Bool.and_eq_false_iff, decide_eq_false_iff_not,
    beq_eq_false_iff_ne]
  omega

theorem normalizedDedupe_ne_none (epoch : String) {n : Int} (hn : 0 < n) :
    RuntimeState.normalizedDedupe (some (dedupeKey epoch n)) ≠ none := by
  obtain ⟨n, rfl⟩ := Int.eq_ofNat_of_zero_le (Int.le_of_lt hn)
  obtain ⟨front, hfront⟩ :=
    intercalate_pySplit_append ("body:".toList ++ epoch.toList ++ [':'])
  have hne : boundedText (dedupeKey epoch n) 500 ≠ "" := by
    rw [dedupeKey_natCast, boundedText, String.toList_ofList,
      hfront _ (isPySpace_toDigits n) Nat.toDigits_ne_nil]
    intro hempty
    have htake := (String.ofList_eq_empty_iff.mp hempty)
    rw [List.take_eq_nil_iff] at htake
    rcases htake with h | h
    · cases h
    · exact Nat.toDigits_ne_nil (List.append_eq_nil_iff.mp h).2
  rw [RuntimeState.normalizedDedupe, Option.getD_some]
  rw [if_neg hne]
  exact Option.some_ne_none _

/-- The keys of two events of an epoch differ, as they are stored. -/
theorem normalizedDedupe_inj {epoch : String} {m n : Int} (hm : 0 < m) (hn : 0 < n)
    (hmfits : KeyFits epoch m) (hnfits : KeyFits epoch n)
    (h : RuntimeState.normalizedDedupe (some (dedupeKey epoch m))
      = RuntimeState.normalizedDedupe (some (dedupeKey epoch n))) : m = n := by
  obtain ⟨m, rfl⟩ := Int.eq_ofNat_of_zero_le (Int.le_of_lt hm)
  obtain ⟨n, rfl⟩ := Int.eq_ofNat_of_zero_le (Int.le_of_lt hn)
  have hbounded : boundedText (dedupeKey epoch m) 500 = boundedText (dedupeKey epoch n) 500 := by
    simp only [RuntimeState.normalizedDedupe, Option.getD_some] at h
    split at h
    · next hempty =>
      split at h
      · next hempty' => exact hempty.trans hempty'.symm
      · cases h
    · split at h
      · cases h
      · exact Option.some.inj h
  rw [KeyFits, dedupeKey_natCast, String.length_ofList] at hmfits hnfits
  rw [dedupeKey_natCast, dedupeKey_natCast] at hbounded
  have hdigits := boundedText_append_inj (isPySpace_toDigits m) (isPySpace_toDigits n)
    Nat.toDigits_ne_nil Nat.toDigits_ne_nil hmfits hnfits hbounded
  have hmn : m = n := by
    rw [← @Nat.ofDigitChars_toDigits 10 m (by decide) (by decide), hdigits,
      Nat.ofDigitChars_toDigits (by decide) (by decide)]
  rw [hmn]

/-! ## The selection -/

section

variable {py : PyText} {args : PollArgs}

variable (py) in
/-- The loop over the events keeps the last one of each key. -/
theorem selected_cases (events : List Event) :
    let selected : Dict (String × String) Event := events.foldl
      (fun selected event => Dict.set selected (event.name, actionId py event) event) []
    (∀ kv ∈ selected, kv.2 ∈ events ∧ kv.1 = (kv.2.name, actionId py kv.2))
      ∧ (events.Pairwise (fun e e' => e.seq < e'.seq) → ∀ e ∈ events, ∃ e' ∈ events,
          Dict.get? selected (e.name, actionId py e) = some e' ∧ e.seq ≤ e'.seq) := by
  induction events using List.reverseRecOn with
  | nil => exact ⟨nofun, fun _ => nofun⟩
  | append_singleton events event ih =>
      obtain ⟨hmem, hlast⟩ := ih
      simp only [List.foldl_append, List.foldl_cons, List.foldl_nil]
      constructor
      · intro kv hkv
        rcases Dict.mem_of_mem_set hkv with rfl | hkv
        · exact ⟨List.mem_append_right _ (List.mem_singleton_self _), rfl⟩
        · exact ⟨List.mem_append_left _ (hmem kv hkv).1, (hmem kv hkv).2⟩
      · intro hasc e he
        obtain ⟨hasc, -, hbelow⟩ := List.pairwise_append.mp hasc
        have hself : event ∈ events ++ [event] :=
          List.mem_append_right _ (List.mem_singleton_self _)
        by_cases hkey : (e.name, actionId py e) = (event.name, actionId py event)
        · refine ⟨event, hself, ?_, ?_⟩
          · rw [hkey, Dict.get?_set_self]
          · rcases List.mem_append.mp he with he | he
            · exact Int.le_of_lt (hbelow e he event (List.mem_singleton_self _))
            · rw [List.mem_singleton.mp he]
        · have hold : e ∈ events := (List.mem_append.mp he).resolve_right fun he =>
            hkey (by rw [List.mem_singleton.mp he])
          obtain ⟨e', he', hget, hle⟩ := hlast hasc e hold
          refine ⟨e', List.mem_append_left _ he', ?_, hle⟩
          rw [Dict.get?_set_of_ne _ hkey, hget]

theorem mem_of_mem_coalesce {events : List Event} {e : Event}
    (h : e ∈ coalesceMaterialEvents py args events) : e ∈ events := by
  rw [coalesceMaterialEvents, List.mem_insertionSort] at h
  obtain ⟨kv, hkv, rfl⟩ := List.mem_map.mp h
  exact (List.mem_filter.mp ((selected_cases py _).1 kv hkv).1).1

variable (py args) in
/-- Of each name and action, an event at least as late is selected. -/
theorem exists_coalesce {events : List Event} (hasc : events.Pairwise fun e e' => e.seq < e'.seq)
    {e : Event} (he : e ∈ events) (hmaterial : material py args e = true) :
    ∃ e' ∈ coalesceMaterialEvents py args events,
      e'.name = e.name ∧ actionId py e' = actionId py e ∧ e.seq ≤ e'.seq := by
  have hfilter : e ∈ events.filter (material py args) := List.mem_filter.mpr ⟨he, hmaterial⟩
  obtain ⟨hkeys, hlast⟩ := selected_cases py (events.filter (material py args))
  obtain ⟨e', -, hget, hle⟩ := hlast (hasc.filter _) e hfilter
  have hmem := Dict.mem_of_get? hget
  have hkey := Prod.mk.inj (hkeys _ hmem).2
  refine ⟨e', ?_, hkey.1.symm, hkey.2.symm, hle⟩
  rw [coalesceMaterialEvents, List.mem_insertionSort]
  exact List.mem_map.mpr ⟨_, hmem, rfl⟩

end

/-! ## Intents of the epoch -/

variable (py : PyText) (bot : String) (scope : RuntimeScope) (epoch : String)

/-- The row is an intent of the epoch that carries the event. -/
structure Carries (row : WorkIntentRow) (event : Event) : Prop where
  kind : row.kind = .bodyEvent
  scope : row.scopeKey = scope.key
  dedupe : row.dedupeKey = RuntimeState.normalizedDedupe (some (dedupeKey epoch event.seq))
  payload : row.payload.get? "event" = some (eventPayload event)

/-- The intents that a run has enqueued since the ledger was `start`. -/
def enqueuedSince (start st : RuntimeState) : List WorkIntentRow :=
  st.workIntents.drop start.workIntents.length

variable {py bot scope epoch} {args : PollArgs} {start st st' : RuntimeState}

theorem enqueue_cases {event : Event} (hpos : 0 < event.seq) {id : String} {now : Nat}
    {row : WorkIntentRow}
    (h : st.enqueueWorkIntent scope (intentDraft epoch args event) none id now = .ok (row, st')) :
    (st' = st ∧ row ∈ st.workIntents ∧ row.scopeKey = scope.key
        ∧ row.dedupeKey = RuntimeState.normalizedDedupe (some (dedupeKey epoch event.seq)))
      ∨ (st'.workIntents = st.workIntents ++ [row] ∧ Carries scope epoch row event
        ∧ ∀ r ∈ st.workIntents, r.scopeKey = scope.key → r.dedupeKey ≠ row.dedupeKey) := by
  obtain ⟨key, hkey⟩ := Option.ne_none_iff_exists'.mp (normalizedDedupe_ne_none epoch hpos)
  have hdraft : (intentDraft epoch args event).dedupeKey = some (dedupeKey epoch event.seq) := rfl
  simp only [RuntimeState.enqueueWorkIntent, hdraft, hkey] at h
  split at h
  · cases h
  · split at h
    · cases h
    · split at h
      · next hinsertable =>
        obtain ⟨hrow, hst⟩ := Prod.mk.inj (Except.ok.inj h)
        subst hrow hst
        refine .inr ⟨rfl, ⟨rfl, rfl, hkey.symm, rfl⟩, ?_⟩
        simp only [RuntimeState.insertable, RuntimeState.draftRow, Bool.and_eq_true,
          List.all_eq_true] at hinsertable
        intro r hr hscope hdedupe
        exact of_decide_eq_true (hinsertable.1.2 r hr) ⟨hscope, hdedupe⟩
      · rw [Option.bind_some] at h
        split at h
        · next existing hexisting =>
          obtain ⟨hrow, hst⟩ := Prod.mk.inj (Except.ok.inj h)
          subst hrow hst
          have hfound := List.find?_some hexisting
          simp only [decide_eq_true_eq] at hfound
          exact .inl ⟨rfl, List.mem_of_find?_eq_some hexisting, hfound.1, by rw [hfound.2, hkey]⟩
        · cases h

variable (scope epoch start) in
/-- What the run has enqueued carries events that polls have returned, under
different keys. -/
structure LedgerGood (returned : List Event) (st : RuntimeState) : Prop where
  grows : start.workIntents <+: st.workIntents
  carries : ∀ row ∈ enqueuedSince start st, ∃ event ∈ returned, Carries scope epoch row event
  distinct : (enqueuedSince start st).Pairwise fun r r' => r.dedupeKey ≠ r'.dedupeKey

/-- The ledger knows nothing of the epoch. -/
def FreshEpoch (scope : RuntimeScope) (epoch : String) (start : RuntimeState) : Prop :=
  ∀ row ∈ start.workIntents, row.scopeKey = scope.key →
    ∀ seq, row.dedupeKey ≠ RuntimeState.normalizedDedupe (some (dedupeKey epoch seq))

variable (scope epoch start) in
/-- An intent carries the event. -/
def Enqueued (st : RuntimeState) (event : Event) : Prop :=
  ∃ row ∈ enqueuedSince start st, Carries scope epoch row event

variable (epoch) in
/-- The events of the epoch have numbers from 1 on that fit a key, and a
material one shares its number with no other. -/
structure Numbered (returned : List Event) : Prop where
  pos : ∀ e ∈ returned, 0 < e.seq
  fits : ∀ e ∈ returned, KeyFits epoch e.seq
  same : ∀ e ∈ returned, ∀ e' ∈ returned, alwaysMaterial e = true → e'.seq = e.seq → e' = e

theorem enqueuedSince_append {row : WorkIntentRow} (h : start.workIntents <+: st.workIntents)
    (hst' : st'.workIntents = st.workIntents ++ [row]) :
    enqueuedSince start st' = enqueuedSince start st ++ [row] := by
  rw [enqueuedSince, hst', List.drop_append_of_le_length h.length_le, enqueuedSince]

theorem mem_or_enqueuedSince (h : start.workIntents <+: st.workIntents) {row : WorkIntentRow}
    (hrow : row ∈ st.workIntents) : row ∈ start.workIntents ∨ row ∈ enqueuedSince start st := by
  obtain ⟨new, hnew⟩ := h
  rw [enqueuedSince, ← hnew, List.drop_left]
  rw [← hnew] at hrow
  exact List.mem_append.mp hrow

variable {returned : List Event}

/-- An enqueue keeps the ledger good, and the event has its intent if it is
material. -/
theorem LedgerGood.enqueue (hfresh : FreshEpoch scope epoch start)
    (h : LedgerGood scope epoch start returned st) (hnumbered : Numbered epoch returned)
    {event : Event} (hevent : event ∈ returned) {id : String} {now : Nat} {row : WorkIntentRow}
    (hok : st.enqueueWorkIntent scope (intentDraft epoch args event) none id now
      = .ok (row, st')) :
    LedgerGood scope epoch start returned st'
      ∧ (enqueuedSince start st <+: enqueuedSince start st')
      ∧ (alwaysMaterial event = true → Enqueued scope epoch start st' event) := by
  rcases enqueue_cases (hnumbered.pos event hevent) hok with
    ⟨rfl, hrow, hscope, hdedupe⟩ | ⟨hst', hcarries, hother⟩
  · refine ⟨h, List.prefix_rfl, fun hmaterial => ?_⟩
    have hrow' : row ∈ enqueuedSince start st' :=
      (mem_or_enqueuedSince h.grows hrow).resolve_left fun hold =>
        hfresh row hold hscope event.seq hdedupe
    obtain ⟨e, he, hcarries⟩ := h.carries row hrow'
    have hseq : e.seq = event.seq :=
      normalizedDedupe_inj (hnumbered.pos e he) (hnumbered.pos event hevent)
        (hnumbered.fits e he) (hnumbered.fits event hevent) (hcarries.dedupe.symm.trans hdedupe)
    obtain rfl := hnumbered.same event hevent e he hmaterial hseq
    exact ⟨row, hrow', hcarries⟩
  · have happend := enqueuedSince_append h.grows hst'
    refine ⟨⟨?_, ?_, ?_⟩, ?_, fun _ => ⟨row, ?_, hcarries⟩⟩
    · rw [hst']
      exact h.grows.trans (List.prefix_append _ _)
    · intro r hr
      rw [happend, List.mem_append, List.mem_singleton] at hr
      rcases hr with hr | rfl
      · exact h.carries r hr
      · exact ⟨event, hevent, hcarries⟩
    · rw [happend, List.pairwise_append]
      refine ⟨h.distinct, List.pairwise_singleton _ _, fun r hr r' hr' => ?_⟩
      obtain rfl := List.mem_singleton.mp hr'
      obtain ⟨e, -, hscope⟩ := h.carries r hr
      exact hother r (List.mem_of_mem_drop hr) (hscope.scope)
    · rw [happend]
      exact List.prefix_append _ _
    · rw [happend]
      exact List.mem_append_right _ (List.mem_singleton_self _)

theorem Enqueued.mono {event : Event} (h : Enqueued scope epoch start st event)
    (hgrows : enqueuedSince start st <+: enqueuedSince start st') :
    Enqueued scope epoch start st' event := by
  obtain ⟨row, hrow, hcarries⟩ := h
  exact ⟨row, hgrows.subset hrow, hcarries⟩

variable (args) in
/-- The loop enqueues an intent for each material event, unless it raises. -/
theorem enqueueAll_good (hfresh : FreshEpoch scope epoch start)
    (hnumbered : Numbered epoch returned) (env : Circumstances) (events : List Event) :
    ∀ i (st : RuntimeState), (∀ e ∈ events, e ∈ returned) →
      LedgerGood scope epoch start returned st →
      LedgerGood scope epoch start returned (enqueueAll scope epoch args env i events st).2
        ∧ (enqueuedSince start st
            <+: enqueuedSince start (enqueueAll scope epoch args env i events st).2)
        ∧ ((enqueueAll scope epoch args env i events st).1 ≠ none →
            ∀ e ∈ events, alwaysMaterial e = true →
              Enqueued scope epoch start (enqueueAll scope epoch args env i events st).2 e) := by
  induction events with
  | nil => exact fun i st _ h => ⟨h, List.prefix_rfl, fun _ => nofun⟩
  | cons event events ih =>
      intro i st hmem h
      rw [List.forall_mem_cons] at hmem
      rw [enqueueAll]
      split
      · exact ⟨h, List.prefix_rfl, fun hne => absurd rfl hne⟩
      · split
        · exact ⟨h, List.prefix_rfl, fun hne => absurd rfl hne⟩
        · next row st' hok =>
          obtain ⟨hgood, hgrows, hevent⟩ := h.enqueue hfresh hnumbered hmem.1 hok
          split
          · exact ⟨hgood, hgrows, fun hne => absurd rfl hne⟩
          · obtain ⟨hgood', hgrows', hrest⟩ := ih (i + 1) st' hmem.2 hgood
            refine ⟨hgood', hgrows.trans hgrows', fun hne => ?_⟩
            have hne' : (enqueueAll scope epoch args env (i + 1) events st').1 ≠ none := by
              intro hnone
              exact hne (by simp [hnone])
            rw [List.forall_mem_cons]
            exact ⟨fun hmaterial => (hevent hmaterial).mono hgrows', hrest hne'⟩

/-! ## Runs -/

abbrev Log := List (Call × Outcome)

/-- The events that polls have returned. -/
def returnedBy (log : Log) : List Event :=
  log.flatMap fun
    | (_, .polled events _) => events
    | _ => []

/-- Since the process started, an enqueue has raised in a poll that returned a
material event. -/
def failedSinceStart (log : Log) : Bool :=
  log.foldl (fun failed entry => match entry with
    | (.start .., _) => false
    | (_, .polled events .enqueueRaised) => failed || events.any alwaysMaterial
    | _ => failed) false

variable (epoch) in
/-- A poll from `lastSeq` to `last` agrees with what earlier polls returned:
a material event in its range comes again, and shares its number with no
other. -/
structure Agrees (returned : List Event) (lastSeq last : Int) (events : List Event) : Prop where
  fits : ∀ e ∈ events, KeyFits epoch e.seq
  again : ∀ e ∈ returned, alwaysMaterial e = true → lastSeq < e.seq → e.seq ≤ last → e ∈ events
  same : ∀ e ∈ events, ∀ e' ∈ returned, e'.seq = e.seq →
    alwaysMaterial e = true ∨ alwaysMaterial e' = true → e' = e

variable (bot epoch) in
/-- The Body's events are those of one epoch, and after a failed enqueue the
process starts anew before it polls or writes the cursor. -/
def Careful (log : Log) (s : State) : Call → Prop
  | .pollOnce gaps items _ _ => failedSinceStart log = false ∧ ∀ p, s.pump = some p →
      Agrees epoch (returnedBy log) p.lastSeq (pollEvents bot p.lastSeq gaps items).2
        (pollEvents bot p.lastSeq gaps items).1
  | .acknowledgeCursor _ => failedSinceStart log = false
  | _ => True

variable (py scope epoch start) in
/-- An intent carries the event, or a later one of its name and action. -/
def Covered (st : RuntimeState) (event : Event) : Prop :=
  ∃ event', Enqueued scope epoch start st event' ∧ event'.name = event.name
    ∧ actionId py event' = actionId py event ∧ event.seq ≤ event'.seq

variable (py scope epoch start) in
/-- The material events up to `n` are covered. -/
def CoveredTo (returned : List Event) (st : RuntimeState) (n : Int) : Prop :=
  ∀ e ∈ returned, alwaysMaterial e = true → e.seq ≤ n → Covered py scope epoch start st e

theorem returnedBy_append (log : Log) (c : Call) (o : Outcome) :
    returnedBy (log ++ [(c, o)]) = returnedBy log ++ returnedBy [(c, o)] := by
  simp [returnedBy]

theorem returnedBy_quiet (log : Log) (c : Call) {o : Outcome}
    (h : ∀ events result, o ≠ .polled events result) :
    returnedBy (log ++ [(c, o)]) = returnedBy log := by
  rw [returnedBy_append]
  cases o with
  | done => simp [returnedBy]
  | raised => simp [returnedBy]
  | polled events result => exact absurd rfl (h events result)

variable (bot) in
theorem pollEvents_ascends (lastSeq : Int) (gaps : List EventGap) (items : List BotEvent) :
    JavaBody.Ascends lastSeq (pollEvents bot lastSeq gaps items).1
      (pollEvents bot lastSeq gaps items).2 :=
  (JavaBody.desyncsOf_ascends bot lastSeq gaps).append (JavaBody.eventsOf_ascends bot _ items)

variable (py scope epoch start) in
/-- The invariant: the persisted cursor has nothing uncovered behind it, nor
has the Body's while no enqueue of the process has failed. -/
structure Good (log : Log) (s : State) : Prop where
  ledger : LedgerGood scope epoch start (returnedBy log) s.ledger
  numbered : Numbered epoch (returnedBy log)
  persisted : ∀ c, s.cursor = some c →
    CoveredTo py scope epoch start (returnedBy log) s.ledger c.lastSeq
  held : ∀ p, s.pump = some p → failedSinceStart log = false →
    CoveredTo py scope epoch start (returnedBy log) s.ledger p.lastSeq
  behind : ∀ p, s.pump = some p → ∃ c, s.cursor = some c ∧ (c.lastSeq : Int) ≤ p.lastSeq
  begun : s.cursor = none → returnedBy log = []

theorem CoveredTo.mono {n : Int} (h : CoveredTo py scope epoch start returned st n)
    (hgrows : enqueuedSince start st <+: enqueuedSince start st') :
    CoveredTo py scope epoch start returned st' n := by
  intro e he hmaterial hle
  obtain ⟨e', henqueued, hname, haction, hle'⟩ := h e he hmaterial hle
  exact ⟨e', henqueued.mono hgrows, hname, haction, hle'⟩

theorem failedSinceStart_append (log : Log) (c : Call) (o : Outcome) :
    failedSinceStart (log ++ [(c, o)]) = match (c, o) with
      | (.start .., _) => false
      | (_, .polled events .enqueueRaised) => failedSinceStart log || events.any alwaysMaterial
      | _ => failedSinceStart log := by
  rw [failedSinceStart, List.foldl_append]
  rfl

variable {log : Log} {s s₀ : State}

/-- The pump starts where nothing is uncovered. -/
theorem Good.initialPump_covered (h : Good py scope epoch start log s) (eventSeq chatSeq : Int) :
    CoveredTo py scope epoch start (returnedBy log) s.ledger
        (initialPump epoch eventSeq chatSeq s.cursor).lastSeq
      ∧ 0 ≤ (initialPump epoch eventSeq chatSeq s.cursor).lastSeq := by
  cases hcursor : s.cursor with
  | none =>
      rw [h.begun hcursor, initialPump]
      exact ⟨fun _ => nofun, Int.le_max_left ..⟩
  | some c =>
      rw [initialPump]
      split
      · exact ⟨h.persisted c hcursor, Int.natCast_nonneg _⟩
      · refine ⟨fun e he _ hle => ?_, Int.le_refl 0⟩
        have hpos := h.numbered.pos e he
        exact absurd hle (Int.not_le.mpr hpos)

theorem Good.startProcess (h : Good py scope epoch start log s) (eventSeq chatSeq : Int)
    (cursorFault : Bool) :
    Good py scope epoch start
      (log ++ [(.start eventSeq chatSeq cursorFault,
        (step py bot scope epoch s (.start eventSeq chatSeq cursorFault)).1)])
      (step py bot scope epoch s (.start eventSeq chatSeq cursorFault)).2 := by
  obtain ⟨hcovered, hnonneg⟩ := h.initialPump_covered eventSeq chatSeq
  cases cursorFault with
  | true =>
      rw [step, if_pos rfl]
      have hreturned := returnedBy_quiet log (.start eventSeq chatSeq true)
        (o := Outcome.raised) nofun
      constructor
      · rw [hreturned]
        exact h.ledger
      · rw [hreturned]
        exact h.numbered
      · rw [hreturned]
        exact h.persisted
      · exact fun p hp => by cases hp
      · exact fun p hp => by cases hp
      · rw [hreturned]
        exact h.begun
  | false =>
      rw [step, if_neg Bool.false_ne_true]
      have hreturned := returnedBy_quiet log (.start eventSeq chatSeq false)
        (o := Outcome.done) nofun
      have hlast := Int.toNat_of_nonneg hnonneg
      constructor
      · rw [hreturned]
        exact h.ledger
      · rw [hreturned]
        exact h.numbered
      · intro c hc
        obtain rfl := Option.some.inj hc
        rw [hreturned]
        simp only [hlast]
        exact hcovered
      · intro p hp _
        obtain rfl := Option.some.inj hp
        rw [hreturned]
        exact hcovered
      · intro p hp
        obtain rfl := Option.some.inj hp
        exact ⟨_, rfl, Int.le_of_eq hlast⟩
      · exact nofun

/-- The cursor may be written up to where everything is covered. -/
theorem Good.setEventCursor (h : Good py scope epoch start log s) {p : Pump}
    (hp : s.pump = some p)
    (hcovered : CoveredTo py scope epoch start (returnedBy log) s.ledger p.lastSeq) :
    Good py scope epoch start log (setEventCursor epoch p s) := by
  obtain ⟨c, -, hle⟩ := h.behind p hp
  have hlast : (p.lastSeq.toNat : Int) = p.lastSeq := Int.toNat_of_nonneg (by omega)
  constructor
  · exact h.ledger
  · exact h.numbered
  · intro c' hc'
    obtain rfl := Option.some.inj hc'
    simp only [hlast]
    exact hcovered
  · exact h.held
  · intro p' hp'
    obtain rfl := Option.some.inj (hp.symm.trans hp')
    exact ⟨_, rfl, Int.le_of_eq hlast⟩
  · exact nofun

/-- A call that returns no events and leaves the process as it is. -/
theorem Good.quiet (h : Good py scope epoch start log s) {c : Call} {o : Outcome}
    (ho : ∀ events result, o ≠ .polled events result) (hc : ∀ e q f, c ≠ .start e q f) :
    Good py scope epoch start (log ++ [(c, o)]) s := by
  have hreturned := returnedBy_quiet log c ho
  have hfailed : failedSinceStart (log ++ [(c, o)]) = failedSinceStart log := by
    rw [failedSinceStart_append]
    cases c with
    | start e q f => exact absurd rfl (hc e q f)
    | _ =>
        cases o with
        | polled events result => exact absurd rfl (ho events result)
        | _ => rfl
  constructor
  · rw [hreturned]
    exact h.ledger
  · rw [hreturned]
    exact h.numbered
  · rw [hreturned]
    exact h.persisted
  · rw [hreturned, hfailed]
    exact h.held
  · exact h.behind
  · rw [hreturned]
    exact h.begun

/-! ### A poll -/

theorem Numbered.append (h : Numbered epoch returned) {lastSeq last : Int} {events : List Event}
    (hasc : JavaBody.Ascends lastSeq events last) (hnonneg : 0 ≤ lastSeq)
    (hagrees : Agrees epoch returned lastSeq last events) :
    Numbered epoch (returned ++ events) := by
  constructor
  · intro e he
    rcases List.mem_append.mp he with he | he
    · exact h.pos e he
    · exact Int.lt_of_le_of_lt hnonneg (hasc.above e he)
  · intro e he
    rcases List.mem_append.mp he with he | he
    · exact h.fits e he
    · exact hagrees.fits e he
  · intro e he e' he' hmaterial hseq
    rcases List.mem_append.mp he with he | he <;> rcases List.mem_append.mp he' with he' | he'
    · exact h.same e he e' he' hmaterial hseq
    · exact (hagrees.same e' he' e he hseq.symm (.inr hmaterial)).symm
    · exact hagrees.same e he e' he' hseq (.inl hmaterial)
    · by_contra hne
      have hlt := List.Pairwise.forall_of_forall_of_flip (l := events)
        (R := fun e e' : Event => e.seq = e'.seq → e = e') ?_ ?_ ?_ he' he hseq
      · exact hne hlt
      · exact fun _ _ _ => rfl
      · exact hasc.pairwise.imp fun hlt heq => absurd heq (Int.ne_of_lt hlt)
      · exact hasc.pairwise.imp fun hlt heq => absurd heq.symm (Int.ne_of_lt hlt)

/-- What an earlier poll returned is covered, or this one returns it again. -/
theorem mem_or_covered {lastSeq last : Int} {events : List Event} {e : Event}
    (hheld : CoveredTo py scope epoch start returned st lastSeq)
    (hagrees : Agrees epoch returned lastSeq last events) (he : e ∈ returned ++ events)
    (hmaterial : alwaysMaterial e = true) (hle : e.seq ≤ last) :
    e ∈ events ∨ Covered py scope epoch start st e := by
  rcases List.mem_append.mp he with he | he
  · rcases Int.lt_or_le lastSeq e.seq with hlt | hle'
    · exact .inl (hagrees.again e he hmaterial hlt hle)
    · exact .inr (hheld e he hmaterial hle')
  · exact .inl he

theorem LedgerGood.weaken {returned' : List Event} (h : LedgerGood scope epoch start returned st)
    (hsub : ∀ e ∈ returned, e ∈ returned') : LedgerGood scope epoch start returned' st where
  grows := h.grows
  carries := by
    intro row hrow
    obtain ⟨e, he, hcarries⟩ := h.carries row hrow
    exact ⟨e, hsub e he, hcarries⟩
  distinct := h.distinct

/-- The poll before it writes the cursor. -/
theorem Good.polled (hfresh : FreshEpoch scope epoch start) (h : Good py scope epoch start log s)
    {p : Pump} (hp : s.pump = some p) {gaps : List EventGap} {items : List BotEvent}
    {env : Circumstances} {events : List Event} {last : Int}
    (hpoll : pollEvents bot p.lastSeq gaps items = (events, last))
    (hcareful : failedSinceStart log = false)
    (hagrees : Agrees epoch (returnedBy log) p.lastSeq last events) {enqueued : Option Nat}
    {ledger : RuntimeState}
    (henqueue : enqueueAll scope epoch args env 0 (coalesceMaterialEvents py args events) s.ledger
      = (enqueued, ledger))
    {result : PollEnd} (hresult : result ≠ .enqueueRaised → enqueued ≠ none) :
    Good py scope epoch start (log ++ [(.pollOnce gaps items args env, .polled events result)])
      { s with ledger := ledger, pump := some { p with lastSeq := last } } := by
  obtain ⟨c, hc, hbehind⟩ := h.behind p hp
  have hasc : JavaBody.Ascends p.lastSeq events last := by
    have hasc := pollEvents_ascends bot p.lastSeq gaps items
    rwa [hpoll] at hasc
  have hreturned : returnedBy (log ++ [(.pollOnce gaps items args env, .polled events result)])
      = returnedBy log ++ events := by
    rw [returnedBy_append]
    simp [returnedBy]
  have hnumbered := h.numbered.append hasc (by omega) hagrees
  have hselected : ∀ e ∈ coalesceMaterialEvents py args events, e ∈ returnedBy log ++ events :=
    fun e he => List.mem_append_right _ (mem_of_mem_coalesce he)
  have hledger := h.ledger.weaken fun e he => List.mem_append_left events he
  obtain ⟨hgood, hgrows, hall⟩ :=
    enqueueAll_good args hfresh hnumbered env _ 0 s.ledger hselected hledger
  rw [henqueue] at hgood hgrows hall
  have hheld := (h.held p hp hcareful).mono hgrows
  constructor
  · rw [hreturned]
    exact hgood
  · rw [hreturned]
    exact hnumbered
  · intro c' hc' e he hmaterial hle
    obtain rfl := Option.some.inj (hc.symm.trans hc')
    rw [hreturned] at he
    rcases List.mem_append.mp he with he | he
    · exact hheld e he hmaterial (by omega)
    · have habove := hasc.above e he
      omega
  · intro p' hp' hfailed e he hmaterial hle
    obtain rfl := Option.some.inj hp'
    rw [hreturned] at he
    rcases mem_or_covered hheld hagrees he hmaterial hle with he | hcovered
    · have hsucceeded : result ≠ .enqueueRaised := by
        rintro rfl
        rw [failedSinceStart_append] at hfailed
        have hnone : (failedSinceStart log || events.any alwaysMaterial) = false := hfailed
        rw [hcareful, Bool.false_or] at hnone
        exact absurd hmaterial (List.any_eq_false.mp hnone e he)
      obtain ⟨e', he', hname, haction, hle'⟩ :=
        exists_coalesce py args hasc.pairwise he (by simp [material, hmaterial])
      have hmaterial' : alwaysMaterial e' = true := by
        rw [alwaysMaterial, hname]
        exact hmaterial
      exact ⟨e', hall (hresult hsucceeded) e' he' hmaterial', hname, haction, hle'⟩
    · exact hcovered
  · intro p' hp'
    obtain rfl := Option.some.inj hp'
    exact ⟨c, hc, Int.le_trans hbehind hasc.le⟩
  · intro hnone
    rw [show s.cursor = none from hnone] at hc
    cases hc

theorem Good.next (hfresh : FreshEpoch scope epoch start) (h : Good py scope epoch start log s)
    {c : Call} (hcareful : Careful bot epoch log s c) :
    Good py scope epoch start (log ++ [(c, (step py bot scope epoch s c).1)])
      (step py bot scope epoch s c).2 := by
  cases c with
  | start eventSeq chatSeq cursorFault => exact h.startProcess eventSeq chatSeq cursorFault
  | pollOnce gaps items args env =>
      obtain ⟨hnot, hagrees⟩ := hcareful
      rw [step]
      cases hp : s.pump with
      | none => exact h.quiet nofun nofun
      | some p =>
          have hagrees := hagrees p hp
          obtain ⟨events, last, hpoll⟩ :
              ∃ events last, pollEvents bot p.lastSeq gaps items = (events, last) := ⟨_, _, rfl⟩
          obtain ⟨enqueued, ledger, henqueue⟩ : ∃ enqueued ledger,
              enqueueAll scope epoch args env 0 (coalesceMaterialEvents py args events) s.ledger
                = (enqueued, ledger) := ⟨_, _, rfl⟩
          rw [hpoll] at hagrees
          have hpolled (result : PollEnd) (hresult : result ≠ .enqueueRaised → enqueued ≠ none) :=
            h.polled hfresh hp hpoll hnot hagrees henqueue hresult
          simp only [pollOnce, hpoll, henqueue]
          cases enqueued with
          | none => exact hpolled _ fun hne => absurd rfl hne
          | some n =>
              cases hfault : env.cursorFault with
              | true => exact hpolled _ fun _ => Option.some_ne_none n
              | false =>
                  have hgood := hpolled
                    (.returned
                      { observed := events.length
                        material := (coalesceMaterialEvents py args events).length
                        enqueued := n
                        lastSeq := last
                        epoch := epoch })
                    fun _ => Option.some_ne_none n
                  refine hgood.setEventCursor rfl (hgood.held _ rfl ?_)
                  rw [failedSinceStart_append]
                  exact hnot
  | pollChatEvents lastChatSeq =>
      rw [step]
      cases hp : s.pump with
      | none => exact h.quiet nofun nofun
      | some p =>
          have hquiet := h.quiet (c := .pollChatEvents lastChatSeq) (o := .done) nofun nofun
          refine ⟨hquiet.ledger, hquiet.numbered, hquiet.persisted, ?_, ?_, hquiet.begun⟩
          · intro p' hp'
            obtain rfl := Option.some.inj hp'
            exact hquiet.held p hp
          · intro p' hp'
            obtain rfl := Option.some.inj hp'
            exact hquiet.behind p hp
  | acknowledgeCursor cursorFault =>
      rw [step]
      cases hp : s.pump with
      | none => exact h.quiet nofun nofun
      | some p =>
          cases cursorFault with
          | true => exact h.quiet nofun nofun
          | false =>
              have hquiet := h.quiet (c := .acknowledgeCursor false) (o := .done) nofun nofun
              refine hquiet.setEventCursor hp (hquiet.held p hp ?_)
              rw [failedSinceStart_append]
              exact hcareful

/-! ## The cursor -/

def plainText : PyText where
  str := fun
    | some (.str text) => text
    | _ => ""
  lower := String.toLower

def death : BotEvent := ⟨"Bot", 1, 20, "death", none, []⟩

end BodyEventPump

end MineBot
