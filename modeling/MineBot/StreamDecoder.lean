import Mathlib

/-!
# Incremental decoders

A decoder that is fed a stream piece by piece: what it cannot read yet
stays in a buffer, and one call reads as many items as the buffer holds.
`next` looks at the front of the buffer only, which is what the last two
laws say: an item is read off the bytes it takes, and a failure that is
already decided does not depend on what arrives later.

A call that fails half way gives up what it has read in that call. So
the calls agree on a stream without a failure however it is cut
(`deliver_of_drain`), and around a failure exactly when no item
precedes it (`deliver_independent_iff`).
-/

namespace MineBot

/-- What the front of the buffer comes to. -/
inductive NextItem (β μ ε : Type*) where
  | more
  | item (m : μ) (rest : List β)
  | fails (e : ε) (rest : List β)

structure StreamDecoder (β μ ε : Type*) where
  next : List β → NextItem β μ ε
  next_nil : next [] = .more
  item_front {b rest : List β} {m : μ} : next b = .item m rest →
    ∃ front, front ≠ [] ∧ b = front ++ rest ∧ ∀ x, next (front ++ x) = .item m x
  fails_append {b rest : List β} {e : ε} :
    next b = .fails e rest → ∀ x, ∃ rest', next (b ++ x) = .fails e rest'

namespace StreamDecoder

variable {β μ ε : Type*} (d : StreamDecoder β μ ε)

/-! ## One call -/

theorem shorter {b rest : List β} {m : μ} (h : d.next b = .item m rest) :
    rest.length < b.length := by
  obtain ⟨front, hfront, rfl, -⟩ := d.item_front h
  have hpos := List.length_pos_iff.mpr hfront
  rw [List.length_append]
  omega

theorem item_append {b rest : List β} {m : μ} (h : d.next b = .item m rest) (x : List β) :
    d.next (b ++ x) = .item m (rest ++ x) := by
  obtain ⟨front, -, rfl, hitem⟩ := d.item_front h
  rw [List.append_assoc, hitem]

/-- Reads the buffer up to where more is needed, or to a failure: the
items, the failure, what is left. -/
def drain (b : List β) : List μ × Option ε × List β :=
  match _h : d.next b with
  | .more => ([], none, b)
  | .item m rest => (m :: (drain rest).1, (drain rest).2)
  | .fails e rest => ([], some e, rest)
termination_by b.length
decreasing_by all_goals exact d.shorter _h

variable {d} {b rest : List β} {m : μ} {ms : List μ} {e : ε}

theorem drain_of_more (h : d.next b = .more) : d.drain b = ([], none, b) := by
  rw [drain]
  split
  · rfl
  · next heq => cases h.symm.trans heq
  · next heq => cases h.symm.trans heq

theorem drain_of_item (h : d.next b = .item m rest) :
    d.drain b = (m :: (d.drain rest).1, (d.drain rest).2) := by
  rw [drain]
  split
  · next heq => cases h.symm.trans heq
  · next heq =>
      obtain ⟨rfl, rfl⟩ := NextItem.item.inj (h.symm.trans heq)
      rfl
  · next heq => cases h.symm.trans heq

theorem drain_of_fails (h : d.next b = .fails e rest) : d.drain b = ([], some e, rest) := by
  rw [drain]
  split
  · next heq => cases h.symm.trans heq
  · next heq => cases h.symm.trans heq
  · next heq =>
      obtain ⟨rfl, rfl⟩ := NextItem.fails.inj (h.symm.trans heq)
      rfl

/-- Induction along the items that `drain` reads. -/
theorem drain_induction {P : List β → Prop} (hmore : ∀ b, d.next b = .more → P b)
    (hfails : ∀ b e rest, d.next b = .fails e rest → P b)
    (hitem : ∀ b m rest, d.next b = .item m rest → P rest → P b) (b : List β) : P b := by
  induction hlength : b.length using Nat.strongRecOn generalizing b with
  | _ n ih =>
      cases hnext : d.next b with
      | more => exact hmore b hnext
      | fails e rest => exact hfails b e rest hnext
      | item m rest =>
          exact hitem b m rest hnext (ih rest.length (hlength ▸ d.shorter hnext) rest rfl)

/-- Where reading stops without a failure, more is needed. -/
theorem next_rest : ∀ {b ms rest}, d.drain b = (ms, none, rest) → d.next rest = .more := by
  intro b
  induction b using d.drain_induction with
  | hmore b hnext =>
      intro ms rest h
      cases (drain_of_more hnext).symm.trans h
      exact hnext
  | hfails b e rest hnext =>
      intro ms rest h
      cases (drain_of_fails hnext).symm.trans h
  | hitem b m rest hnext ih =>
      intro ms rest' h
      have hrest := congrArg Prod.snd ((drain_of_item hnext).symm.trans h)
      exact ih (show d.drain rest = ((d.drain rest).1, none, rest') from Prod.ext rfl hrest)

/-- More bytes are read where the earlier ones stopped. -/
theorem drain_append (x : List β) : ∀ {b ms rest}, d.drain b = (ms, none, rest) →
    d.drain (b ++ x) = (ms ++ (d.drain (rest ++ x)).1, (d.drain (rest ++ x)).2) := by
  intro b
  induction b using d.drain_induction with
  | hmore b hnext =>
      intro ms rest h
      cases (drain_of_more hnext).symm.trans h
      rfl
  | hfails b e rest hnext =>
      intro ms rest h
      cases (drain_of_fails hnext).symm.trans h
  | hitem b m rest hnext ih =>
      intro ms rest' h
      obtain ⟨hms, hrest⟩ := Prod.mk.inj ((drain_of_item hnext).symm.trans h)
      rw [drain_of_item (d.item_append hnext x), ih (Prod.ext rfl hrest), ← hms]
      rfl

/-- A failure stays where it is. -/
theorem drain_append_of_fails (x : List β) : ∀ {b ms e rest}, d.drain b = (ms, some e, rest) →
    ∃ rest', d.drain (b ++ x) = (ms, some e, rest') := by
  intro b
  induction b using d.drain_induction with
  | hmore b hnext =>
      intro ms e rest h
      cases (drain_of_more hnext).symm.trans h
  | hfails b e rest hnext =>
      intro ms e' rest' h
      cases (drain_of_fails hnext).symm.trans h
      obtain ⟨rest', hfails⟩ := d.fails_append hnext x
      exact ⟨rest', drain_of_fails hfails⟩
  | hitem b m rest hnext ih =>
      intro ms e rest' h
      obtain ⟨hms, hrest⟩ := Prod.mk.inj ((drain_of_item hnext).symm.trans h)
      obtain ⟨rest'', hdrain⟩ := ih (Prod.ext rfl hrest)
      refine ⟨rest'', ?_⟩
      rw [drain_of_item (d.item_append hnext x), hdrain, ← hms]

/-! ## One call after the other -/

variable (d)

/-- One call: a failure loses the items read before it. -/
def feed (buffer data : List β) : Except ε (List μ) × List β :=
  match d.drain (buffer ++ data) with
  | (ms, none, rest) => (.ok ms, rest)
  | (_, some e, rest) => (.error e, rest)

/-- The calls up to the first failure: the items they return, the
failure, the buffer. -/
def deliver : List (List β) → List β → List μ × Option ε × List β
  | [], buffer => ([], none, buffer)
  | data :: chunks, buffer =>
      match d.feed buffer data with
      | (.error e, rest) => ([], some e, rest)
      | (.ok ms, rest) => (ms ++ (deliver chunks rest).1, (deliver chunks rest).2)

variable {d} {buffer : List β} {chunks : List (List β)}

theorem feed_of_ok {data : List β} (h : d.drain (buffer ++ data) = (ms, none, rest)) :
    d.feed buffer data = (.ok ms, rest) := by
  rw [feed, h]

theorem feed_of_fails {data : List β} (h : d.drain (buffer ++ data) = (ms, some e, rest)) :
    d.feed buffer data = (.error e, rest) := by
  rw [feed, h]

theorem deliver_cons_of_ok {data : List β} (h : d.feed buffer data = (.ok ms, rest)) :
    d.deliver (data :: chunks) buffer
      = (ms ++ (d.deliver chunks rest).1, (d.deliver chunks rest).2) := by
  rw [deliver, h]

theorem deliver_cons_of_fails {data : List β} (h : d.feed buffer data = (.error e, rest)) :
    d.deliver (data :: chunks) buffer = ([], some e, rest) := by
  rw [deliver, h]

/-- **A stream that decodes is delivered alike however it is cut.** -/
theorem deliver_of_drain (hbuffer : d.next buffer = .more)
    (h : d.drain (buffer ++ chunks.flatten) = (ms, none, rest)) :
    d.deliver chunks buffer = (ms, none, rest) := by
  induction chunks generalizing buffer ms with
  | nil =>
      rw [List.flatten_nil, List.append_nil, drain_of_more hbuffer] at h
      exact h
  | cons data chunks ih =>
      rw [List.flatten_cons, ← List.append_assoc] at h
      obtain ⟨⟨read, error, left⟩, hread⟩ : ∃ r, d.drain (buffer ++ data) = r := ⟨_, rfl⟩
      cases error with
      | some e =>
          obtain ⟨rest', hfails⟩ := drain_append_of_fails chunks.flatten hread
          cases hfails.symm.trans h
      | none =>
          rw [drain_append _ hread] at h
          obtain ⟨hms, hrest⟩ := Prod.mk.inj h
          rw [deliver_cons_of_ok (feed_of_ok hread), ih (next_rest hread) (Prod.ext rfl hrest), hms]

/-- Before a failure some of the items that precede it are delivered. -/
theorem deliver_of_fails (hbuffer : d.next buffer = .more)
    (h : d.drain (buffer ++ chunks.flatten) = (ms, some e, rest)) :
    (d.deliver chunks buffer).1 <+: ms := by
  induction chunks generalizing buffer ms with
  | nil =>
      rw [List.flatten_nil, List.append_nil, drain_of_more hbuffer] at h
      cases h
  | cons data chunks ih =>
      rw [List.flatten_cons, ← List.append_assoc] at h
      obtain ⟨⟨read, error, left⟩, hread⟩ : ∃ r, d.drain (buffer ++ data) = r := ⟨_, rfl⟩
      cases error with
      | some e =>
          rw [deliver_cons_of_fails (feed_of_fails hread)]
          exact List.nil_prefix
      | none =>
          rw [drain_append _ hread] at h
          obtain ⟨hms, hrest⟩ := Prod.mk.inj h
          rw [deliver_cons_of_ok (feed_of_ok hread), ← hms]
          exact (List.prefix_append_right_inj read).mpr (ih (next_rest hread) (Prod.ext rfl hrest))

/-- Every way of cutting the stream delivers the same items. -/
def Independent (d : StreamDecoder β μ ε) (stream : List β) : Prop :=
  ∀ chunks chunks' : List (List β), chunks.flatten = stream → chunks'.flatten = stream →
    (d.deliver chunks []).1 = (d.deliver chunks' []).1

/-- **When the cut does not matter**: the stream does not start with an
item and fail later. -/
theorem deliver_independent_iff {stream : List β} :
    Independent d stream
      ↔ ¬ ∃ m rest, d.next stream = .item m rest ∧ (d.drain rest).2.1.isSome := by
  constructor
  · rintro hsame ⟨m, rest, hnext, hfails⟩
    obtain ⟨⟨read, error, left⟩, hrest⟩ : ∃ r, d.drain rest = r := ⟨_, rfl⟩
    rw [hrest] at hfails
    obtain ⟨e, rfl⟩ := Option.isSome_iff_exists.mp hfails
    obtain ⟨front, -, rfl, hfront⟩ := d.item_front hnext
    have hwhole : d.drain ([] ++ (front ++ rest)) = (m :: read, some e, left) := by
      rw [List.nil_append, drain_of_item hnext, hrest]
    have hfirst : d.drain ([] ++ front) = ([m], none, []) := by
      have hitem := hfront []
      rw [List.append_nil] at hitem
      rw [List.nil_append, drain_of_item hitem, drain_of_more d.next_nil]
    -- in one piece the failure swallows the item, cut after the item it is delivered
    have hone : (d.deliver [front ++ rest] []).1 = [] := by
      rw [deliver_cons_of_fails (feed_of_fails hwhole)]
    have htwo : (d.deliver [front, rest] []).1 = m :: (d.deliver [rest] []).1 := by
      rw [deliver_cons_of_ok (feed_of_ok hfirst)]
      rfl
    have heq := hsame [front ++ rest] [front, rest] (by simp) (by simp)
    rw [hone, htwo] at heq
    cases heq
  · intro hnot chunks chunks' hchunks hchunks'
    obtain ⟨⟨read, error, left⟩, hdrain⟩ : ∃ r, d.drain stream = r := ⟨_, rfl⟩
    cases error with
    | none =>
        rw [deliver_of_drain d.next_nil (by rw [List.nil_append, hchunks]; exact hdrain),
          deliver_of_drain d.next_nil (by rw [List.nil_append, hchunks']; exact hdrain)]
    | some e =>
        have hread : read = [] := by
          cases hnext : d.next stream with
          | more => cases (drain_of_more hnext).symm.trans hdrain
          | fails e rest => exact congrArg Prod.fst ((drain_of_fails hnext).symm.trans hdrain).symm
          | item m rest =>
              refine absurd ⟨m, rest, hnext, ?_⟩ hnot
              rw [drain_of_item hnext] at hdrain
              rw [congrArg (·.2.1) hdrain]
              rfl
        subst hread
        rw [List.prefix_nil.mp (deliver_of_fails d.next_nil (by rw [List.nil_append, hchunks]; exact hdrain)),
          List.prefix_nil.mp (deliver_of_fails d.next_nil (by rw [List.nil_append, hchunks']; exact hdrain))]

end StreamDecoder

end MineBot
