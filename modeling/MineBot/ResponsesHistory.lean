import Mathlib
import MineBot.ResponsesKernel

/-!
# The history of a connection

The history is appended to while the answer streams, its end is merged with the
output of the terminal, what comes before a compaction item is deleted, and a
summary replaces it. `Sane` is what all of these keep: an output follows its
call, unless a compaction has absorbed the call.
-/

namespace MineBot

namespace Responses

/-- `item.get("call_id") or item.get("id")` of an item the model has produced. -/
def Item.producedKey? : Item → Option String
  | .produced m => m.key
  | _ => none

/-- A compaction item or a summary. -/
def Item.absorbs : Item → Bool
  | .produced (.compaction ..) => true
  | .summary _ => true
  | _ => false

def Item.isProduced : Item → Bool
  | .produced _ => true
  | _ => false

def producedKeys (items : List Item) : List String := items.filterMap Item.producedKey?

/-- Every output with the id has a call with it before it. -/
def Preceded (items : List Item) (callId : String) : Prop :=
  ∀ pre output post, items = pre ++ .callOutput callId output :: post → callId ∈ callIds pre

/-- What came before has been absorbed by a compaction. -/
def Absorbed (items : List Item) : Prop := ∃ item ∈ items, item.absorbs

/-- A history into which requests have put the outputs `given`. -/
structure Sane (given : List String) (items : List Item) : Prop where
  keys : (producedKeys items).Nodup
  outputs : (outputIds items).Nodup
  sent : ∀ callId ∈ outputIds items, callId ∈ given
  paired : ∀ callId ∈ outputIds items,
    Preceded items callId ∨ callId ∉ callIds items ∧ Absorbed items
  dropped : ∀ callId ∈ given, callId ∉ outputIds items →
    callId ∉ callIds items ∧ Absorbed items

/-! ## Lists of items -/

section

variable {items xs ys : List Item} {given : List String} {callId : String} {m : ModelItem}

theorem callIds_append (xs ys : List Item) : callIds (xs ++ ys) = callIds xs ++ callIds ys :=
  List.filterMap_append

theorem outputIds_append (xs ys : List Item) :
    outputIds (xs ++ ys) = outputIds xs ++ outputIds ys :=
  List.filterMap_append

theorem producedKeys_append (xs ys : List Item) :
    producedKeys (xs ++ ys) = producedKeys xs ++ producedKeys ys :=
  List.filterMap_append

theorem mem_outputIds : callId ∈ outputIds items ↔ ∃ output, .callOutput callId output ∈ items := by
  rw [outputIds, List.mem_filterMap]
  constructor
  · rintro ⟨item, hmem, hid⟩
    cases item with
    | callOutput callId' output =>
        obtain rfl := Option.some.inj hid
        exact ⟨output, hmem⟩
    | _ => cases hid
  · rintro ⟨output, hmem⟩
    exact ⟨_, hmem, rfl⟩

/-- A call is keyed by its id. -/
theorem callIds_sublist (items : List Item) : (callIds items).Sublist (producedKeys items) := by
  induction items with
  | nil => exact .slnil
  | cons item items ih =>
      cases item with
      | produced m =>
          cases m with
          | call c => exact ih.cons_cons c.callId
          | message id _ | compaction id _ | other id _ =>
              cases id with
              | none => exact ih
              | some id => exact ih.cons id
      | _ => exact ih

theorem outputIds_of_produced (h : ∀ item ∈ items, item.isProduced) : outputIds items = [] := by
  refine List.filterMap_eq_nil_iff.mpr fun item hmem => ?_
  have hproduced := h item hmem
  cases item with
  | produced m => rfl
  | _ => cases hproduced

theorem Absorbed.append_left (h : Absorbed xs) (ys : List Item) : Absorbed (xs ++ ys) := by
  obtain ⟨item, hmem, habsorbs⟩ := h
  exact ⟨item, List.mem_append_left _ hmem, habsorbs⟩

theorem Preceded.left (h : Preceded (xs ++ ys) callId) : Preceded xs callId := by
  intro pre output post heq
  refine h pre output (post ++ ys) ?_
  rw [heq, List.append_assoc, List.cons_append]

/-- The outputs that follow come after the calls. -/
theorem Preceded.append (h : Preceded xs callId)
    (hnew : callId ∈ outputIds ys → callId ∈ callIds xs) : Preceded (xs ++ ys) callId := by
  intro pre output post heq
  rcases List.append_eq_append_iff.mp heq with ⟨mid, rfl, hys⟩ | ⟨mid, hxs, hmid⟩
  · have hmem : callId ∈ outputIds ys :=
      mem_outputIds.mpr ⟨output, hys ▸ List.mem_append_right _ List.mem_cons_self⟩
    rw [callIds_append]
    exact List.mem_append_left _ (hnew hmem)
  · cases mid with
    | nil =>
        rw [List.append_nil] at hxs
        have hmem : callId ∈ outputIds ys :=
          mem_outputIds.mpr ⟨output, (List.nil_append _ ▸ hmid) ▸ List.mem_cons_self⟩
        exact hxs ▸ hnew hmem
    | cons item mid =>
        obtain ⟨rfl, -⟩ := List.cons.inj hmid
        exact h pre output mid hxs

theorem Preceded.of_not_mem (h : callId ∉ outputIds items) : Preceded items callId := by
  intro pre output post heq
  refine absurd (mem_outputIds.mpr ⟨output, ?_⟩) h
  exact heq ▸ List.mem_append_right _ List.mem_cons_self

/-! ## What the operations keep -/

/-- A request appends outputs, facts, texts and a snapshot. -/
theorem Sane.append (h : Sane given items) (hkeys : producedKeys xs = [])
    (hnodup : (outputIds xs).Nodup) (hnew : ∀ callId ∈ outputIds xs, callId ∉ outputIds items)
    (hknown : ∀ callId ∈ outputIds xs, callId ∈ callIds items ∨ callId ∈ given) :
    Sane (given ++ outputIds xs) (items ++ xs) := by
  have hcalls : callIds (items ++ xs) = callIds items := by
    have hnil : callIds xs = [] := List.sublist_nil.mp (hkeys ▸ callIds_sublist xs)
    rw [callIds_append, hnil, List.append_nil]
  refine ⟨?_, ?_, ?_, ?_, ?_⟩
  · rw [producedKeys_append, hkeys, List.append_nil]
    exact h.keys
  · rw [outputIds_append]
    exact List.nodup_append'.mpr ⟨h.outputs, hnodup, fun callId hold hxs => hnew callId hxs hold⟩
  · intro callId hmem
    rw [outputIds_append, List.mem_append] at hmem
    exact List.mem_append.mpr (hmem.imp (h.sent callId) id)
  · intro callId hmem
    rw [hcalls]
    rw [outputIds_append, List.mem_append] at hmem
    rcases hmem with hmem | hmem
    · rcases h.paired callId hmem with hpreceded | ⟨hcall, habsorbed⟩
      · exact .inl (hpreceded.append fun hxs => absurd hmem (hnew callId hxs))
      · exact .inr ⟨hcall, habsorbed.append_left xs⟩
    · have hold := hnew callId hmem
      by_cases hcall : callId ∈ callIds items
      · exact .inl ((Preceded.of_not_mem hold).append fun _ => hcall)
      · have hgiven := (hknown callId hmem).resolve_left hcall
        exact .inr ⟨hcall, (h.dropped callId hgiven hold).2.append_left xs⟩
  · intro callId hmem hnone
    rw [outputIds_append, List.mem_append, not_or] at hnone
    have hgiven := (List.mem_append.mp hmem).resolve_right hnone.2
    obtain ⟨hcall, habsorbed⟩ := h.dropped callId hgiven hnone.1
    exact ⟨hcalls ▸ hcall, habsorbed.append_left xs⟩

/-- The items of a response are appended, or replaced by those of its terminal. -/
theorem Sane.replace (h : Sane given (items ++ xs)) (hxs : ∀ item ∈ xs, item.isProduced)
    (hys : ∀ item ∈ ys, item.isProduced) (hkeys : (producedKeys (items ++ ys)).Nodup)
    (hfresh : ∀ callId ∈ callIds ys, callId ∈ callIds xs ∨ callId ∉ given)
    (habsorbed : Absorbed xs → Absorbed ys) : Sane given (items ++ ys) := by
  have houtputs : ∀ zs : List Item, (∀ item ∈ zs, item.isProduced) →
      outputIds (items ++ zs) = outputIds items := by
    intro zs hzs
    rw [outputIds_append, outputIds_of_produced hzs, List.append_nil]
  have hkept : Absorbed (items ++ xs) → Absorbed (items ++ ys) := by
    rintro ⟨item, hmem, habsorbs⟩
    rcases List.mem_append.mp hmem with hmem | hmem
    · exact ⟨item, List.mem_append_left _ hmem, habsorbs⟩
    · obtain ⟨item', hmem', habsorbs'⟩ := habsorbed ⟨item, hmem, habsorbs⟩
      exact ⟨item', List.mem_append_right _ hmem', habsorbs'⟩
  have hcall : ∀ callId ∈ given, callId ∉ callIds (items ++ xs) → callId ∉ callIds (items ++ ys) := by
    intro callId hgiven hnone hmem
    rw [callIds_append, List.mem_append] at hmem hnone
    rcases hmem with hmem | hmem
    · exact hnone (.inl hmem)
    · rcases hfresh callId hmem with hold | hnew
      · exact hnone (.inr hold)
      · exact hnew hgiven
  refine ⟨hkeys, ?_, ?_, ?_, ?_⟩
  · rw [houtputs ys hys, ← houtputs xs hxs]
    exact h.outputs
  · rw [houtputs ys hys, ← houtputs xs hxs]
    exact h.sent
  · intro callId hmem
    rw [houtputs ys hys, ← houtputs xs hxs] at hmem
    rcases h.paired callId hmem with hpreceded | ⟨hnone, habs⟩
    · refine .inl (hpreceded.left.append fun hout => ?_)
      rw [outputIds_of_produced hys] at hout
      cases hout
    · exact .inr ⟨hcall callId (h.sent callId hmem) hnone, hkept habs⟩
  · intro callId hgiven hnone
    rw [houtputs ys hys, ← houtputs xs hxs] at hnone
    obtain ⟨hno, habs⟩ := h.dropped callId hgiven hnone
    exact ⟨hcall callId hgiven hno, hkept habs⟩

/-- What comes before a compaction item is deleted, when its calls have outputs. -/
theorem Sane.prune (h : Sane given (xs ++ ys)) (habsorbed : Absorbed ys)
    (hdone : ∀ callId ∈ callIds xs, callId ∈ outputIds (xs ++ ys)) : Sane given ys := by
  have hapart : ∀ callId ∈ callIds xs, callId ∉ callIds ys := by
    have hnodup := h.keys.sublist (callIds_sublist _)
    rw [callIds_append] at hnodup
    exact fun callId hx hy => List.disjoint_of_nodup_append hnodup hx hy
  refine ⟨?_, ?_, ?_, ?_, ?_⟩
  · have hkeys := h.keys
    rw [producedKeys_append] at hkeys
    exact hkeys.of_append_right
  · have houtputs := h.outputs
    rw [outputIds_append] at houtputs
    exact houtputs.of_append_right
  · intro callId hmem
    refine h.sent callId ?_
    rw [outputIds_append]
    exact List.mem_append_right _ hmem
  · intro callId hmem
    have hall : callId ∈ outputIds (xs ++ ys) := by
      rw [outputIds_append]
      exact List.mem_append_right _ hmem
    by_cases hcall : callId ∈ callIds xs
    · exact .inr ⟨hapart callId hcall, habsorbed⟩
    · rcases h.paired callId hall with hpreceded | ⟨hnone, -⟩
      · refine .inl fun pre output post heq => ?_
        have hpre := hpreceded (xs ++ pre) output post (by rw [heq, List.append_assoc])
        rw [callIds_append, List.mem_append] at hpre
        exact hpre.resolve_left hcall
      · rw [callIds_append, List.mem_append, not_or] at hnone
        exact .inr ⟨hnone.2, habsorbed⟩
  · intro callId hgiven hnone
    refine ⟨fun hcall => ?_, habsorbed⟩
    by_cases hx : callId ∈ outputIds xs
    · -- its call comes before the output, and so is deleted with it
      have hall : callId ∈ outputIds (xs ++ ys) := by
        rw [outputIds_append]
        exact List.mem_append_left _ hx
      rcases h.paired callId hall with hpreceded | ⟨hno, -⟩
      · obtain ⟨output, hmem⟩ := mem_outputIds.mp hx
        obtain ⟨pre, post, rfl⟩ := List.append_of_mem hmem
        have hpre := hpreceded.left pre output post rfl
        refine hapart callId ?_ hcall
        rw [callIds_append]
        exact List.mem_append_left _ hpre
      · refine hno ?_
        rw [callIds_append]
        exact List.mem_append_right _ hcall
    · have hno : callId ∉ outputIds (xs ++ ys) := by
        rw [outputIds_append, List.mem_append, not_or]
        exact ⟨hx, hnone⟩
      refine (h.dropped callId hgiven hno).1 ?_
      rw [callIds_append]
      exact List.mem_append_right _ hcall

/-- A summary leaves no call and no output. -/
theorem Sane.of_summary (hkeys : producedKeys items = []) (houtputs : outputIds items = [])
    (habsorbed : Absorbed items) (given : List String) : Sane given items where
  keys := by
    rw [hkeys]
    exact List.nodup_nil
  outputs := by
    rw [houtputs]
    exact List.nodup_nil
  sent callId hmem := by
    rw [houtputs] at hmem
    cases hmem
  paired callId hmem := by
    rw [houtputs] at hmem
    cases hmem
  dropped callId _ _ := by
    have hnil : callIds items = [] := List.sublist_nil.mp (hkeys ▸ callIds_sublist items)
    exact ⟨by rw [hnil]; exact List.not_mem_nil, habsorbed⟩

/-! ## The latest compaction item -/

theorem splitLatest_eq {before kept : List Item} (h : splitLatest items = some (before, kept)) :
    items = before ++ kept ∧ Absorbed kept := by
  induction items generalizing before with
  | nil => cases h
  | cons item items ih =>
      unfold splitLatest at h
      split at h
      · next before' kept' heq =>
          obtain ⟨rfl, rfl⟩ := Prod.mk.inj (Option.some.inj h)
          obtain ⟨rfl, habsorbed⟩ := ih heq
          exact ⟨rfl, habsorbed⟩
      · split at h
        · next hcompaction =>
            obtain ⟨rfl, rfl⟩ := Prod.mk.inj (Option.some.inj h)
            refine ⟨rfl, item, List.mem_cons_self, ?_⟩
            cases item with
            | produced m => cases m <;> first | rfl | cases hcompaction
            | _ => cases hcompaction
        · cases h

/-! ## Merging the output of a terminal -/

/-- `item["type"]`. -/
def ModelItem.type : ModelItem → String
  | .call _ => "function_call"
  | .message .. => "message"
  | .compaction .. => "compaction"
  | .other .. => "other"

/-- The calls among the items of a model. -/
def calledIds (ms : List ModelItem) : List String :=
  ms.filterMap fun
    | .call c => some c.callId
    | _ => none

theorem callId_of_type {old : ModelItem} (htype : old.type = m.type) (hkey : old.key = m.key) :
    Item.callId? (.produced old) = Item.callId? (.produced m) := by
  cases old <;> cases m <;> simp_all [ModelItem.type, ModelItem.key, Item.callId?]

theorem absorbs_of_type {old : ModelItem} (htype : old.type = m.type) :
    Item.absorbs (.produced old) = Item.absorbs (.produced m) := by
  cases old <;> cases m <;> simp_all [ModelItem.type, Item.absorbs]

/-- An item that is replaced by one of the same value. -/
theorem filterMap_set {f : Item → Option String} {i : Nat} {old item : Item}
    (hold : items[i]? = some old) (hf : f old = f item) :
    (items.set i item).filterMap f = items.filterMap f := by
  induction items generalizing i with
  | nil => cases hold
  | cons item' items ih =>
      cases i with
      | zero =>
          obtain rfl := Option.some.inj hold
          rw [List.set_cons_zero, List.filterMap_cons, List.filterMap_cons, hf]
      | succ i =>
          rw [List.set_cons_succ, List.filterMap_cons, List.filterMap_cons, ih hold]

theorem mem_producedKeys {key : String} :
    key ∈ producedKeys items ↔ ∃ m, .produced m ∈ items ∧ m.key = some key := by
  rw [producedKeys, List.mem_filterMap]
  constructor
  · rintro ⟨item, hmem, hkey⟩
    cases item with
    | produced m => exact ⟨m, hmem, hkey⟩
    | _ => cases hkey
  · rintro ⟨m, hmem, hkey⟩
    exact ⟨_, hmem, hkey⟩

/-- What one item does to the items streamed. -/
inductive Merged (items : List Item) (m : ModelItem) : List Item → Prop where
  | same : m.key = none → Merged items m items
  | appended : (∀ key, m.key = some key → key ∉ producedKeys items) →
      Merged items m (items ++ [.produced m])
  | replaced {i : Nat} {old : ModelItem} : items[i]? = some (.produced old) → old.key = m.key →
      m.key.isSome → Merged items m (items.set i (.produced m))

theorem merged_mergeItem (h : ∀ item ∈ items, item.isProduced) (m : ModelItem) :
    Merged items m (mergeItem items m) := by
  unfold mergeItem
  split
  · next i hfind =>
      obtain ⟨key, hkey, hfind⟩ := Option.bind_eq_some_iff.mp hfind
      obtain ⟨hlt, hold, -⟩ := List.findIdx?_eq_some_iff_getElem.mp hfind
      have hget : items[i]? = some items[i] := List.getElem?_eq_getElem hlt
      have hproduced := h _ (List.getElem_mem hlt)
      generalize items[i] = item at hget hold hproduced
      cases item with
      | produced old =>
          have heq : old.key = m.key := by
            rw [hkey]
            exact of_decide_eq_true hold
          exact .replaced hget heq (by rw [hkey]; rfl)
      | _ => cases hproduced
  · next hfind =>
      have hnone : ∀ key, m.key = some key → key ∉ producedKeys items := by
        intro key hkey hmem
        obtain ⟨old, hold, hkey'⟩ := mem_producedKeys.mp hmem
        rw [hkey, Option.bind_some] at hfind
        have := List.findIdx?_eq_none_iff.mp hfind _ hold
        simp [Item.key, hkey'] at this
      split
      · next hmem =>
          cases hkey : m.key with
          | none => exact .same hkey
          | some key => exact absurd (mem_producedKeys.mpr ⟨m, hmem, hkey⟩) (hnone key hkey)
      · exact .appended hnone

/-- The items of a terminal have distinct ids: each is one streamed before, or is
new. -/
structure Distinct (known : List String) (items xs : List Item) (ms : List ModelItem) : Prop where
  types : ∀ m ∈ ms, ∀ old, .produced old ∈ xs → old.key = m.key → m.key.isSome →
    old.type = m.type
  fresh : ∀ m ∈ ms, ∀ key, m.key = some key →
    key ∈ producedKeys xs ∨ key ∉ producedKeys (items ++ xs) ∧ key ∉ known
  nodup : (ms.filterMap ModelItem.key).Nodup

/-- The items of a terminal that are still to be merged. -/
structure Mergeable (known : List String) (items xs : List Item) (ms : List ModelItem) : Prop
    extends Distinct known items xs ms where
  produced : ∀ item ∈ xs, item.isProduced
  keys : (producedKeys (items ++ xs)).Nodup

/-- What is left of the items streamed, and what comes of those of the terminal. -/
structure Merges (known : List String) (items xs : List Item) (ms : List ModelItem)
    (ys : List Item) : Prop where
  produced : ∀ item ∈ ys, item.isProduced
  keys : (producedKeys (items ++ ys)).Nodup
  kept : ∀ callId ∈ callIds xs, callId ∈ callIds ys
  fresh : ∀ callId ∈ callIds ys, callId ∈ callIds xs ∨ callId ∉ known
  called : ∀ callId ∈ calledIds ms, callId ∈ callIds ys
  absorbed : Absorbed xs → Absorbed ys

theorem Merges.refl {known : List String} (h : Mergeable known items xs []) :
    Merges known items xs [] xs where
  produced := h.produced
  keys := h.keys
  kept _ hmem := hmem
  fresh _ hmem := .inl hmem
  called _ hmem := by cases hmem
  absorbed := id

theorem Merges.cons {known : List String} {ms : List ModelItem} {zs : List Item}
    (h : Merges known items xs [m] ys) (h' : Merges known items ys ms zs) :
    Merges known items xs (m :: ms) zs where
  produced := h'.produced
  keys := h'.keys
  kept callId hmem := h'.kept callId (h.kept callId hmem)
  fresh callId hmem := (h'.fresh callId hmem).elim (h.fresh callId) .inr
  called callId hmem := by
    rw [← List.singleton_append, calledIds, List.filterMap_append, List.mem_append] at hmem
    exact hmem.elim (fun hmem => h'.kept callId (h.called callId hmem)) (h'.called callId)
  absorbed habs := h'.absorbed (h.absorbed habs)

theorem mem_calledIds_singleton : callId ∈ calledIds [m] ↔ m.type = "function_call" ∧
    m.key = some callId := by
  cases m <;> simp [calledIds, ModelItem.type, ModelItem.key, eq_comm]

theorem callIds_singleton (m : ModelItem) : callIds [.produced m] = calledIds [m] := by
  cases m <;> rfl

theorem ne_key_of_nodup {ms : List ModelItem} (h : ((m :: ms).filterMap ModelItem.key).Nodup)
    {m' : ModelItem} (hmem : m' ∈ ms) (hsome : m'.key.isSome) : m.key ≠ m'.key := by
  intro heq
  obtain ⟨key, hkey⟩ := Option.isSome_iff_exists.mp hsome
  rw [List.filterMap_cons, heq.trans hkey] at h
  exact (List.nodup_cons.mp h).1 (List.mem_filterMap.mpr ⟨m', hmem, hkey⟩)

theorem Mergeable.tail_nodup {known : List String} {ms : List ModelItem}
    (h : Mergeable known items xs (m :: ms)) : (ms.filterMap ModelItem.key).Nodup :=
  h.nodup.sublist ((List.sublist_cons_self m ms).filterMap ModelItem.key)

theorem producedKeys_singleton (m : ModelItem) : producedKeys [.produced m] = m.key.toList := by
  cases hkey : m.key with
  | none => simp [producedKeys, Item.producedKey?, hkey]
  | some key => simp [producedKeys, Item.producedKey?, hkey]

/-- An item with a new key, or without one, is appended. -/
theorem Mergeable.append {known : List String} {ms : List ModelItem}
    (h : Mergeable known items xs (m :: ms))
    (hnew : ∀ key, m.key = some key → key ∉ producedKeys xs) :
    Merges known items xs [m] (xs ++ [.produced m]) ∧
      Mergeable known items (xs ++ [.produced m]) ms := by
  have hproduced : ∀ item ∈ xs ++ [.produced m], item.isProduced := by
    intro item hmem
    rcases List.mem_append.mp hmem with hmem | hmem
    · exact h.produced item hmem
    · rw [List.mem_singleton.mp hmem]
      rfl
  have hfresh : ∀ key, m.key = some key → key ∉ producedKeys (items ++ xs) ∧ key ∉ known :=
    fun key hkey => (h.fresh m List.mem_cons_self key hkey).resolve_left (hnew key hkey)
  have hkeys : (producedKeys (items ++ (xs ++ [.produced m]))).Nodup := by
    rw [← List.append_assoc, producedKeys_append, producedKeys_singleton]
    refine List.nodup_append'.mpr ⟨h.keys, m.key.toList_nodup, fun key hold hkey => ?_⟩
    exact (hfresh key (Option.mem_toList.mp hkey)).1 hold
  refine ⟨⟨hproduced, hkeys, ?_, ?_, ?_, fun habs => habs.append_left _⟩,
    ⟨⟨?_, ?_, h.tail_nodup⟩, hproduced, hkeys⟩⟩
  · intro callId hmem
    rw [callIds_append]
    exact List.mem_append_left _ hmem
  · intro callId hmem
    rw [callIds_append, List.mem_append, callIds_singleton] at hmem
    exact hmem.imp_right fun hmem => (hfresh callId (mem_calledIds_singleton.mp hmem).2).2
  · intro callId hmem
    rw [callIds_append, callIds_singleton]
    exact List.mem_append_right _ hmem
  · intro m' hmem' old hold hkey hsome
    rcases List.mem_append.mp hold with hold | hold
    · exact h.types m' (List.mem_cons_of_mem _ hmem') old hold hkey hsome
    · obtain rfl := Item.produced.inj (List.mem_singleton.mp hold)
      exact absurd hkey (ne_key_of_nodup h.nodup hmem' hsome)
  · intro m' hmem' key hkey
    rw [← List.append_assoc, producedKeys_append xs, producedKeys_append (items ++ xs),
      producedKeys_singleton]
    rcases h.fresh m' (List.mem_cons_of_mem _ hmem') key hkey with hold | ⟨hnone, hknown⟩
    · exact .inl (List.mem_append_left _ hold)
    · refine .inr ⟨fun hmem => ?_, hknown⟩
      rcases List.mem_append.mp hmem with hmem | hmem
      · exact hnone hmem
      · have hsame : m.key = m'.key := (Option.mem_toList.mp hmem).trans hkey.symm
        exact ne_key_of_nodup h.nodup hmem' (by rw [hkey]; rfl) hsame

theorem mem_set_or {i : Nat} {old item : Item} (item' : Item) (hold : items[i]? = some old)
    (hmem : item ∈ items) : item ∈ items.set i item' ∨ item = old := by
  obtain ⟨j, hlt, rfl⟩ := List.mem_iff_getElem.mp hmem
  by_cases heq : i = j
  · subst heq
    rw [List.getElem?_eq_getElem hlt] at hold
    exact .inr (Option.some.inj hold)
  · refine .inl (List.mem_iff_getElem?.mpr ⟨j, ?_⟩)
    rw [List.getElem?_set_ne heq, List.getElem?_eq_getElem hlt]

/-- An item that was streamed is replaced by its final version. -/
theorem Mergeable.replace {known : List String} {ms : List ModelItem} {i : Nat} {old : ModelItem}
    (h : Mergeable known items xs (m :: ms)) (hold : xs[i]? = some (.produced old))
    (hkey : old.key = m.key) (hsome : m.key.isSome) :
    Merges known items xs [m] (xs.set i (.produced m)) ∧
      Mergeable known items (xs.set i (.produced m)) ms := by
  have hmem := List.mem_of_getElem? hold
  have htype := h.types m List.mem_cons_self old hmem hkey hsome
  have hproduced : ∀ item ∈ xs.set i (.produced m), item.isProduced := by
    intro item hitem
    rcases List.mem_or_eq_of_mem_set hitem with hitem | rfl
    · exact h.produced item hitem
    · rfl
  have hkeys : producedKeys (xs.set i (.produced m)) = producedKeys xs :=
    filterMap_set (f := Item.producedKey?) hold hkey
  have hcalls : callIds (xs.set i (.produced m)) = callIds xs :=
    filterMap_set (f := Item.callId?) hold (callId_of_type htype hkey)
  have hall : producedKeys (items ++ xs.set i (.produced m)) = producedKeys (items ++ xs) := by
    rw [producedKeys_append, producedKeys_append, hkeys]
  refine ⟨⟨hproduced, hall ▸ h.keys, ?_, ?_, ?_, ?_⟩,
    ⟨⟨?_, ?_, h.tail_nodup⟩, hproduced, hall ▸ h.keys⟩⟩
  · exact fun callId hcall => hcalls ▸ hcall
  · exact fun callId hcall => .inl (hcalls ▸ hcall)
  · intro callId hcall
    rw [hcalls]
    refine List.mem_filterMap.mpr ⟨_, hmem, ?_⟩
    rw [callId_of_type htype hkey]
    obtain ⟨item, hitem, hid⟩ := List.mem_filterMap.mp (callIds_singleton m ▸ hcall)
    rwa [List.mem_singleton.mp hitem] at hid
  · rintro ⟨item, hitem, habsorbs⟩
    rcases mem_set_or (.produced m) hold hitem with hitem | rfl
    · exact ⟨item, hitem, habsorbs⟩
    · have hlt := (List.getElem?_eq_some_iff.mp hold).1
      exact ⟨_, List.mem_set hlt _, absorbs_of_type htype ▸ habsorbs⟩
  · intro m' hmem' old' hold' hkey' hsome'
    rcases List.mem_or_eq_of_mem_set hold' with hold' | heq
    · exact h.types m' (List.mem_cons_of_mem _ hmem') old' hold' hkey' hsome'
    · obtain rfl := Item.produced.inj heq
      exact absurd hkey' (ne_key_of_nodup h.nodup hmem' hsome')
  · intro m' hmem' key hkey'
    rw [hkeys, hall]
    exact h.fresh m' (List.mem_cons_of_mem _ hmem') key hkey'

/-- The output of a terminal, merged into the items streamed. -/
theorem Mergeable.merge {known : List String} {ms : List ModelItem}
    (h : Mergeable known items xs ms) : Merges known items xs ms (ms.foldl mergeItem xs) := by
  induction ms generalizing xs with
  | nil => exact .refl h
  | cons m ms ih =>
      rw [List.foldl_cons]
      have hstep : Merges known items xs [m] (mergeItem xs m) ∧
          Mergeable known items (mergeItem xs m) ms := by
        generalize heq : mergeItem xs m = ys
        have hmerged := heq ▸ merged_mergeItem h.produced m
        cases hmerged with
        | same hnone =>
            refine ⟨⟨h.produced, h.keys, fun _ => id, fun _ => .inl, fun callId hcall => ?_, id⟩,
              ⟨⟨fun m' hmem' => h.types m' (List.mem_cons_of_mem _ hmem'),
                fun m' hmem' => h.fresh m' (List.mem_cons_of_mem _ hmem'), h.tail_nodup⟩,
                h.produced, h.keys⟩⟩
            cases hnone.symm.trans (mem_calledIds_singleton.mp hcall).2
        | appended hnew => exact h.append hnew
        | replaced hold hkey hsome => exact h.replace hold hkey hsome
      exact hstep.1.cons (ih hstep.2)

end

end Responses

end MineBot
