import MineBot.Json
import MineBot.StreamDecoder

/-!
# The frame codec

`FrameCodec` puts a JSON object behind its length in four bytes and takes
such frames off a byte stream. The JSON library is a parameter; what is
used of it is that it has no value for no bytes and that it reads back
what it wrote, up to the order of keys that `sort_keys` changes.
-/

namespace MineBot

/-- `MAX_FRAME_BYTES`. -/
def maxFrameBytes : Nat := 1024 * 1024

/-- `_FRAME_PREFIX_BYTES`. -/
def framePrefixBytes : Nat := 4

/-! ## Four-byte lengths -/

/-- `struct.pack(">I", n)`. -/
def packU32 (n : Nat) : List UInt8 :=
  [.ofNat (n / 2 ^ 24), .ofNat (n / 2 ^ 16), .ofNat (n / 2 ^ 8), .ofNat n]

/-- `struct.unpack(">I", bytes)[0]`. -/
def unpackU32 (bytes : List UInt8) : Nat :=
  bytes.foldl (fun n b => n * 2 ^ 8 + b.toNat) 0

@[simp] theorem length_packU32 (n : Nat) : (packU32 n).length = framePrefixBytes := rfl

theorem unpackU32_packU32 {n : Nat} (h : n < 2 ^ 32) : unpackU32 (packU32 n) = n := by
  simp only [unpackU32, packU32, List.foldl_cons, List.foldl_nil, UInt8.toNat_ofNat']
  omega

theorem packU32_unpackU32 {bytes : List UInt8} (h : bytes.length = framePrefixBytes) :
    packU32 (unpackU32 bytes) = bytes := by
  obtain ⟨a, b, c, d, rfl⟩ : ∃ a b c d, bytes = [a, b, c, d] := by
    match bytes, h with
    | [a, b, c, d], _ => exact ⟨a, b, c, d, rfl⟩
  have ha := a.toNat_lt
  have hb := b.toNat_lt
  have hc := c.toNat_lt
  have hd := d.toNat_lt
  have hnat : ∀ (n : Nat) (x : UInt8), n % 2 ^ 8 = x.toNat → UInt8.ofNat n = x := by
    intro n x h
    exact UInt8.toNat_inj.mp ((UInt8.toNat_ofNat' ..).trans h)
  simp only [unpackU32, packU32, List.foldl_cons, List.foldl_nil, List.cons.injEq, and_true]
  refine ⟨hnat _ _ ?_, hnat _ _ ?_, hnat _ _ ?_, hnat _ _ ?_⟩ <;> omega

/-! ## The codec -/

/-- What `json.loads(raw.decode("utf-8"))` raises. -/
inductive LoadsError where
  /-- a `UnicodeDecodeError` or a `JSONDecodeError` -/
  | notUtf8Json
  /-- anything else; `feed` lets it through -/
  | other
deriving DecidableEq

structure JsonLibrary where
  /-- `json.dumps(message, …, sort_keys=True).encode("utf-8")` -/
  dumps : JsonObject → List UInt8
  /-- `json.loads(raw.decode("utf-8"))` -/
  loads : List UInt8 → Except LoadsError Json

inductive FrameError where
  | tooLarge (size max : Nat)
  | notUtf8Json
  | noType
  | loads
deriving DecidableEq

/-- The message of the `RealClientProtocolError`. -/
def FrameError.text : FrameError → Option String
  | .tooLarge size max => some s!"frame payload is {size} bytes; max is {max}"
  | .notUtf8Json => some "frame payload is not UTF-8 JSON"
  | .noType => some "frame payload must be a JSON object with type"
  | .loads => none

structure FrameCodec where
  maxFrameBytes : Nat
  buffer : List UInt8
  bounded : 1 ≤ maxFrameBytes ∧ maxFrameBytes ≤ MineBot.maxFrameBytes

/-- The message the payload of a frame holds. -/
def JsonLibrary.message (lib : JsonLibrary) (raw : List UInt8) : Except FrameError JsonObject :=
  match lib.loads raw with
  | .error .notUtf8Json => .error .notUtf8Json
  | .error .other => .error .loads
  | .ok (.obj decoded) => match Dict.get? decoded "type" with
      | some (.str _) => .ok decoded
      | _ => .error .noType
  | .ok _ => .error .noType

/-- One turn of the loop of `feed`. -/
def nextFrame (lib : JsonLibrary) (max : Nat) (buffer : List UInt8) :
    NextItem UInt8 JsonObject FrameError :=
  if buffer.length < framePrefixBytes then .more
  else
    let size := unpackU32 (buffer.take framePrefixBytes)
    if size = 0 ∨ max < size then .fails (.tooLarge size max) buffer
    else if buffer.length < framePrefixBytes + size then .more
    else
      let rest := buffer.drop (framePrefixBytes + size)
      match lib.message ((buffer.drop framePrefixBytes).take size) with
      | .error e => .fails e rest
      | .ok decoded => .item decoded rest

/-! ## Frames in the stream -/

/-- A payload behind its length. -/
def frame (payload : List UInt8) : List UInt8 := packU32 payload.length ++ payload

/-- A payload of an admissible length. -/
def Fits (max : Nat) (payload : List UInt8) : Prop :=
  payload ≠ [] ∧ payload.length ≤ max

section Frames

variable {lib : JsonLibrary} {max : Nat} {b rest payload : List UInt8} {m : JsonObject}

/-- Four bytes are in, and they name a length: the buffer starts with a
frame of it, the frame is not complete, or the length is inadmissible. -/
theorem buffer_cases (max : Nat) {b : List UInt8} (hfour : framePrefixBytes ≤ b.length) :
    (unpackU32 (b.take framePrefixBytes) = 0 ∨ max < unpackU32 (b.take framePrefixBytes))
      ∨ ¬ (unpackU32 (b.take framePrefixBytes) = 0 ∨ max < unpackU32 (b.take framePrefixBytes))
        ∧ (b.length < framePrefixBytes + unpackU32 (b.take framePrefixBytes)
          ∨ ∃ payload rest, Fits max payload ∧ b = frame payload ++ rest) := by
  by_cases hsize : unpackU32 (b.take framePrefixBytes) = 0 ∨ max < unpackU32 (b.take framePrefixBytes)
  · exact .inl hsize
  refine .inr ⟨hsize, ?_⟩
  by_cases hshort : b.length < framePrefixBytes + unpackU32 (b.take framePrefixBytes)
  · exact .inl hshort
  have hlength : ((b.drop framePrefixBytes).take (unpackU32 (b.take framePrefixBytes))).length
      = unpackU32 (b.take framePrefixBytes) := by
    rw [List.length_take, List.length_drop]
    omega
  refine .inr ⟨(b.drop framePrefixBytes).take (unpackU32 (b.take framePrefixBytes)),
    b.drop (framePrefixBytes + unpackU32 (b.take framePrefixBytes)), ⟨?_, ?_⟩, ?_⟩
  · exact List.ne_nil_of_length_pos (by omega)
  · omega
  · rw [frame, hlength, packU32_unpackU32 (by rw [List.length_take]; omega), List.append_assoc,
      ← List.drop_drop, List.take_append_drop, List.take_append_drop]

/-- The loop at a buffer that starts with a frame. -/
theorem nextFrame_frame (hmax : max ≤ maxFrameBytes) (hfits : Fits max payload)
    (rest : List UInt8) : nextFrame lib max (frame payload ++ rest)
      = match lib.message payload with
        | .error e => .fails e rest
        | .ok decoded => .item decoded rest := by
  have hfour : (frame payload ++ rest).take framePrefixBytes = packU32 payload.length := by
    rw [frame, List.append_assoc, List.take_left' (length_packU32 _)]
  have hsize : unpackU32 (packU32 payload.length) = payload.length :=
    unpackU32_packU32 (by
      have := hfits.2
      unfold maxFrameBytes at hmax
      omega)
  have hpos := List.length_pos_iff.mpr hfits.1
  have hlength : (frame payload ++ rest).length
      = framePrefixBytes + payload.length + rest.length := by
    rw [frame, List.length_append, List.length_append, length_packU32]
  have hpayload : ((frame payload ++ rest).drop framePrefixBytes).take payload.length = payload := by
    rw [frame, List.append_assoc, List.drop_left' (length_packU32 _), List.take_left' rfl]
  have hrest : (frame payload ++ rest).drop (framePrefixBytes + payload.length) = rest :=
    List.drop_left' (by rw [frame, List.length_append, length_packU32])
  have hmaxsize := hfits.2
  unfold nextFrame
  rw [if_neg (by omega)]
  simp only [hfour, hsize]
  rw [if_neg (by omega), if_neg (by omega), hpayload, hrest]

/-- An inadmissible length at the front of the stream. -/
def BadLength (max : Nat) (b : List UInt8) : Prop :=
  framePrefixBytes ≤ b.length
    ∧ (unpackU32 (b.take framePrefixBytes) = 0 ∨ max < unpackU32 (b.take framePrefixBytes))

theorem nextFrame_badLength (h : BadLength max b) :
    nextFrame lib max b = .fails (.tooLarge (unpackU32 (b.take framePrefixBytes)) max) b := by
  unfold nextFrame
  rw [if_neg (by have := h.1; omega)]
  dsimp only
  rw [if_pos h.2]

/-- What one turn of the loop comes to. -/
theorem nextFrame_cases (lib : JsonLibrary) (max : Nat) (b : List UInt8) :
    nextFrame lib max b = .more
      ∨ BadLength max b
      ∨ ∃ payload rest, Fits max payload ∧ b = frame payload ++ rest := by
  by_cases hfour : b.length < framePrefixBytes
  · exact .inl (if_pos hfour)
  have hle : framePrefixBytes ≤ b.length := by omega
  rcases buffer_cases max hle with hsize | ⟨hsize, hshort | hframe⟩
  · exact .inr (.inl ⟨hle, hsize⟩)
  · refine .inl ?_
    unfold nextFrame
    rw [if_neg hfour]
    dsimp only
    rw [if_neg hsize, if_pos hshort]
  · exact .inr (.inr hframe)

theorem nextFrame_item_iff (hmax : max ≤ maxFrameBytes) :
    nextFrame lib max b = .item m rest
      ↔ ∃ payload, Fits max payload ∧ lib.message payload = .ok m ∧ b = frame payload ++ rest := by
  constructor
  · intro h
    rcases nextFrame_cases lib max b with hmore | hbad | ⟨payload, rest', hfits, rfl⟩
    · cases hmore.symm.trans h
    · cases (nextFrame_badLength hbad).symm.trans h
    · rw [nextFrame_frame hmax hfits] at h
      split at h
      · cases h
      · next decoded hdecoded =>
          obtain ⟨rfl, rfl⟩ := NextItem.item.inj h
          exact ⟨payload, hfits, hdecoded, rfl⟩
  · rintro ⟨payload, hfits, hmessage, rfl⟩
    rw [nextFrame_frame hmax hfits, hmessage]

/-- A bad frame: its length is inadmissible, or its payload is no message. -/
def BadFrame (lib : JsonLibrary) (max : Nat) (b : List UInt8) : Prop :=
  BadLength max b
    ∨ ∃ payload rest, Fits max payload ∧ (∀ m, lib.message payload ≠ .ok m)
      ∧ b = frame payload ++ rest

theorem nextFrame_fails_iff (hmax : max ≤ maxFrameBytes) :
    (∃ e rest, nextFrame lib max b = .fails e rest) ↔ BadFrame lib max b := by
  constructor
  · rintro ⟨e, rest, h⟩
    rcases nextFrame_cases lib max b with hmore | hbad | ⟨payload, rest', hfits, rfl⟩
    · cases hmore.symm.trans h
    · exact .inl hbad
    · refine .inr ⟨payload, rest', hfits, fun m hm => ?_, rfl⟩
      rw [nextFrame_frame hmax hfits, hm] at h
      cases h
  · rintro (hbad | ⟨payload, rest, hfits, hmessage, rfl⟩)
    · exact ⟨_, _, nextFrame_badLength hbad⟩
    · cases hread : lib.message payload with
      | ok m => exact absurd hread (hmessage m)
      | error e => exact ⟨e, rest, by rw [nextFrame_frame hmax hfits, hread]⟩

theorem badLength_append (x : List UInt8) (h : BadLength max b) : BadLength max (b ++ x) := by
  refine ⟨by rw [List.length_append]; have := h.1; omega, ?_⟩
  rw [List.take_append_of_le_length h.1]
  exact h.2

end Frames

/-! ## Calls -/

namespace FrameCodec

/-- `__init__`. -/
def init (max : Int) : Except String FrameCodec :=
  if h : 1 ≤ max ∧ max ≤ MineBot.maxFrameBytes then .ok ⟨max.toNat, [], by omega⟩
  else .error "max_frame_bytes must be between 1 and 1 MiB"

def encode (c : FrameCodec) (lib : JsonLibrary) (message : JsonObject) :
    Except FrameError (List UInt8) :=
  let raw := lib.dumps message
  if c.maxFrameBytes < raw.length then .error (.tooLarge raw.length c.maxFrameBytes)
  else .ok (packU32 raw.length ++ raw)

/-- The loop of `feed`. -/
def decoder (c : FrameCodec) (lib : JsonLibrary) : StreamDecoder UInt8 JsonObject FrameError where
  next := nextFrame lib c.maxFrameBytes
  next_nil := rfl
  item_front h := by
    obtain ⟨payload, hfits, hmessage, rfl⟩ := (nextFrame_item_iff c.bounded.2).mp h
    refine ⟨frame payload, ?_, rfl, fun x => ?_⟩
    · simp [frame, packU32]
    · exact (nextFrame_item_iff c.bounded.2).mpr ⟨payload, hfits, hmessage, rfl⟩
  fails_append {b _ _} h x := by
    rcases nextFrame_cases lib c.maxFrameBytes b with hmore | hbad | ⟨payload, rest', hfits, rfl⟩
    · cases hmore.symm.trans h
    · rw [nextFrame_badLength hbad] at h
      obtain ⟨rfl, -⟩ := NextItem.fails.inj h
      refine ⟨b ++ x, ?_⟩
      rw [nextFrame_badLength (badLength_append x hbad), List.take_append_of_le_length hbad.1]
    · rw [nextFrame_frame c.bounded.2 hfits] at h
      rw [List.append_assoc, nextFrame_frame c.bounded.2 hfits]
      cases hread : lib.message payload with
      | ok m =>
          rw [hread] at h
          cases h
      | error e =>
          rw [hread] at h
          obtain ⟨rfl, -⟩ := NextItem.fails.inj h
          exact ⟨_, rfl⟩

def feed (c : FrameCodec) (lib : JsonLibrary) (data : List UInt8) :
    Except FrameError (List JsonObject) × FrameCodec :=
  match (c.decoder lib).feed c.buffer data with
  | (result, buffer) => (result, { c with buffer })

/-- `pending_bytes`. -/
def pendingBytes (c : FrameCodec) : Nat := c.buffer.length

/-- One `feed` after the other up to the first error: what they return,
the error, the codec. -/
def feedAll (lib : JsonLibrary) :
    FrameCodec → List (List UInt8) → List JsonObject × Option FrameError × FrameCodec
  | c, [] => ([], none, c)
  | c, data :: chunks =>
      match c.feed lib data with
      | (.error e, c) => ([], some e, c)
      | (.ok messages, c) => (messages ++ (feedAll lib c chunks).1, (feedAll lib c chunks).2)

/-- The calls are those of the decoder. -/
theorem feedAll_eq (lib : JsonLibrary) (c : FrameCodec) (chunks : List (List UInt8)) :
    c.feedAll lib chunks = (((c.decoder lib).deliver chunks c.buffer).1,
      ((c.decoder lib).deliver chunks c.buffer).2.1,
      { c with buffer := ((c.decoder lib).deliver chunks c.buffer).2.2 }) := by
  induction chunks generalizing c with
  | nil => rfl
  | cons data chunks ih =>
      rw [feedAll, feed, StreamDecoder.deliver]
      obtain ⟨⟨result, buffer⟩, hfeed⟩ : ∃ r, (c.decoder lib).feed c.buffer data = r := ⟨_, rfl⟩
      rw [hfeed]
      cases result with
      | error e => rfl
      | ok messages =>
          simp only
          rw [ih]
          rfl

end FrameCodec

/-! ## Cutting the stream -/

/-- Python's `==` on dictionaries. -/
def SameObject (a b : JsonObject) : Prop :=
  ∀ key, (Dict.get? a key).map Json.canon = (Dict.get? b key).map Json.canon

/-- `json.loads` undoes `json.dumps` on the message. -/
def JsonLibrary.Inverts (lib : JsonLibrary) (m : JsonObject) : Prop :=
  ∃ decoded, lib.loads (lib.dumps m) = .ok (.obj decoded) ∧ SameObject decoded m

/-- The message has a string under `type`. -/
def HasType (m : JsonObject) : Prop := ∃ t, Dict.get? m "type" = some (.str t)

/-- Whole messages are in front of a bad frame. -/
def LateBadFrame (lib : JsonLibrary) (max : Nat) (stream : List UInt8) : Prop :=
  ∃ (payloads : List (List UInt8)) (tail : List UInt8), payloads ≠ []
    ∧ (∀ payload ∈ payloads, Fits max payload ∧ ∃ m, lib.message payload = .ok m)
    ∧ BadFrame lib max tail ∧ stream = (payloads.map frame).flatten ++ tail

/-- Every way of cutting the stream delivers the same messages before the
first error. -/
def CutIndependent (lib : JsonLibrary) (c : FrameCodec) (stream : List UInt8) : Prop :=
  ∀ chunks chunks' : List (List UInt8), chunks.flatten = stream → chunks'.flatten = stream →
    (c.feedAll lib chunks).1 = (c.feedAll lib chunks').1

section Stream

variable {lib : JsonLibrary} {c : FrameCodec}

theorem HasType.of_same {m decoded : JsonObject} (h : HasType m) (hsame : SameObject decoded m) :
    HasType decoded := by
  obtain ⟨t, ht⟩ := h
  have heq := hsame "type"
  rw [ht, Option.map_some, Option.map_eq_some_iff] at heq
  obtain ⟨v, hv, hcanon⟩ := heq
  refine ⟨t, ?_⟩
  cases v with
  | str s =>
      obtain rfl := Json.str.inj hcanon
      exact hv
  | null => cases hcanon
  | bool b => cases hcanon
  | int n => cases hcanon
  | float q => cases hcanon
  | arr xs => cases hcanon
  | obj fields => cases hcanon

theorem message_dumps {m : JsonObject} (htype : HasType m) (hinv : lib.Inverts m) :
    ∃ decoded, lib.message (lib.dumps m) = .ok decoded ∧ SameObject decoded m := by
  obtain ⟨decoded, hloads, hsame⟩ := hinv
  obtain ⟨t, ht⟩ := htype.of_same hsame
  refine ⟨decoded, ?_, hsame⟩
  simp only [JsonLibrary.message, hloads, ht]

/-- What is encoded is read back. -/
theorem drain_encoded (hempty : lib.loads [] = .error .notUtf8Json) {messages : List JsonObject}
    {frames : List (List UInt8)} (htype : ∀ m ∈ messages, HasType m)
    (hinv : ∀ m ∈ messages, lib.Inverts m)
    (hframes : messages.mapM (c.encode lib) = .ok frames) :
    ∃ received, (c.decoder lib).drain frames.flatten = (received, none, [])
      ∧ List.Forall₂ SameObject received messages := by
  induction messages generalizing frames with
  | nil =>
      obtain rfl := Except.ok.inj hframes
      exact ⟨[], StreamDecoder.drain_of_more rfl, .nil⟩
  | cons m messages ih =>
      obtain ⟨decoded, hmessage, hsame⟩ := message_dumps (htype m List.mem_cons_self)
        (hinv m List.mem_cons_self)
      rw [List.mapM_cons] at hframes
      simp only [bind, Except.bind] at hframes
      split at hframes
      · cases hframes
      next bytes hbytes =>
      split at hframes
      · cases hframes
      next frames' hframes' =>
      obtain rfl := Except.ok.inj hframes
      obtain ⟨received, hdrain, hreceived⟩ := ih
        (fun m hm => htype m (List.mem_cons_of_mem _ hm))
        (fun m hm => hinv m (List.mem_cons_of_mem _ hm)) hframes'
      have hbytes' : c.maxFrameBytes ≥ (lib.dumps m).length ∧ bytes = frame (lib.dumps m) := by
        unfold FrameCodec.encode at hbytes
        dsimp only at hbytes
        split at hbytes
        · cases hbytes
        · exact ⟨by omega, (Except.ok.inj hbytes).symm⟩
      have hfits : Fits c.maxFrameBytes (lib.dumps m) := by
        refine ⟨fun hnil => ?_, hbytes'.1⟩
        rw [hnil] at hmessage
        simp only [JsonLibrary.message, hempty] at hmessage
        cases hmessage
      have hnext : (c.decoder lib).next (bytes ++ frames'.flatten)
          = .item decoded frames'.flatten :=
        (nextFrame_item_iff c.bounded.2).mpr ⟨_, hfits, hmessage, by rw [hbytes'.2]⟩
      refine ⟨decoded :: received, ?_, .cons hsame hreceived⟩
      rw [List.flatten_cons, StreamDecoder.drain_of_item hnext, hdrain]

/-- Where reading the stream fails. -/
theorem drain_fails_iff (stream : List UInt8) :
    ((c.decoder lib).drain stream).2.1.isSome = true
      ↔ ∃ (payloads : List (List UInt8)) (tail : List UInt8),
        (∀ payload ∈ payloads, Fits c.maxFrameBytes payload ∧ ∃ m, lib.message payload = .ok m)
        ∧ BadFrame lib c.maxFrameBytes tail ∧ stream = (payloads.map frame).flatten ++ tail := by
  have hnext : ∀ {b}, (c.decoder lib).next b = nextFrame lib c.maxFrameBytes b := rfl
  induction stream using (c.decoder lib).drain_induction with
  | hmore b hmore =>
      rw [StreamDecoder.drain_of_more hmore]
      constructor
      · intro h
        cases h
      · rintro ⟨payloads, tail, hpayloads, hbad, rfl⟩
        cases payloads with
        | nil =>
            obtain ⟨e, rest, hfails⟩ := (nextFrame_fails_iff c.bounded.2).mpr hbad
            cases hmore.symm.trans hfails
        | cons payload payloads =>
            obtain ⟨hfits, m, hm⟩ := hpayloads payload List.mem_cons_self
            rw [List.map_cons, List.flatten_cons, List.append_assoc] at hmore
            cases hmore.symm.trans
              ((nextFrame_item_iff c.bounded.2).mpr ⟨payload, hfits, hm, rfl⟩)
  | hfails b e rest hfails =>
      rw [StreamDecoder.drain_of_fails hfails]
      constructor
      · intro _
        exact ⟨[], b, by simp, (nextFrame_fails_iff c.bounded.2).mp ⟨e, rest, hfails⟩, rfl⟩
      · intro _
        rfl
  | hitem b m rest hitem ih =>
      obtain ⟨payload, hfits, hm, rfl⟩ := (nextFrame_item_iff c.bounded.2).mp hitem
      rw [StreamDecoder.drain_of_item hitem]
      refine ih.trans ⟨?_, ?_⟩
      · rintro ⟨payloads, tail, hpayloads, hbad, rfl⟩
        refine ⟨payload :: payloads, tail, ?_, hbad, by simp⟩
        intro p hp
        rcases List.mem_cons.mp hp with rfl | hp
        · exact ⟨hfits, m, hm⟩
        · exact hpayloads p hp
      · rintro ⟨payloads, tail, hpayloads, hbad, hstream⟩
        cases payloads with
        | nil =>
            obtain ⟨e, rest', hfails⟩ := (nextFrame_fails_iff c.bounded.2).mpr hbad
            rw [hstream] at hitem
            cases hitem.symm.trans hfails
        | cons payload' payloads =>
            obtain ⟨hfits', m', hm'⟩ := hpayloads payload' List.mem_cons_self
            refine ⟨payloads, tail, fun p hp => hpayloads p (List.mem_cons_of_mem _ hp), hbad, ?_⟩
            have hitem' : nextFrame lib c.maxFrameBytes (frame payload ++ rest)
                = .item m' ((payloads.map frame).flatten ++ tail) :=
              (nextFrame_item_iff c.bounded.2).mpr ⟨payload', hfits', hm', by
                rw [hstream, List.map_cons, List.flatten_cons, List.append_assoc]⟩
            exact (NextItem.item.inj (hitem.symm.trans hitem')).2

theorem lateBadFrame_iff (stream : List UInt8) :
    LateBadFrame lib c.maxFrameBytes stream
      ↔ ∃ m rest, (c.decoder lib).next stream = .item m rest
        ∧ ((c.decoder lib).drain rest).2.1.isSome := by
  constructor
  · rintro ⟨payloads, tail, hne, hpayloads, hbad, rfl⟩
    obtain ⟨payload, payloads, rfl⟩ := List.exists_cons_of_ne_nil hne
    obtain ⟨hfits, m, hm⟩ := hpayloads payload List.mem_cons_self
    have hstream : ((payload :: payloads).map frame).flatten ++ tail
        = frame payload ++ ((payloads.map frame).flatten ++ tail) := by
      rw [List.map_cons, List.flatten_cons, List.append_assoc]
    rw [hstream]
    refine ⟨m, (payloads.map frame).flatten ++ tail, ?_, (drain_fails_iff _).mpr
      ⟨payloads, tail, fun p hp => hpayloads p (List.mem_cons_of_mem _ hp), hbad, rfl⟩⟩
    exact (nextFrame_item_iff c.bounded.2).mpr ⟨payload, hfits, hm, rfl⟩
  · rintro ⟨m, rest, hitem, hfails⟩
    obtain ⟨payload, hfits, hm, rfl⟩ := (nextFrame_item_iff c.bounded.2).mp hitem
    obtain ⟨payloads, tail, hpayloads, hbad, rfl⟩ := (drain_fails_iff rest).mp hfails
    refine ⟨payload :: payloads, tail, List.cons_ne_nil _ _, ?_, hbad, by simp⟩
    intro p hp
    rcases List.mem_cons.mp hp with rfl | hp
    · exact ⟨hfits, m, hm⟩
    · exact hpayloads p hp

/-- Of a fresh codec: the cut matters on a late bad frame only. -/
theorem cutIndependent_iff (hbuffer : c.buffer = []) {stream : List UInt8} :
    CutIndependent lib c stream ↔ ¬ LateBadFrame lib c.maxFrameBytes stream := by
  have hsame : CutIndependent lib c stream ↔ (c.decoder lib).Independent stream := by
    simp only [CutIndependent, StreamDecoder.Independent, FrameCodec.feedAll_eq, hbuffer]
  rw [hsame, StreamDecoder.deliver_independent_iff, lateBadFrame_iff]

end Stream

/-- **When the network's cuts do not matter.** Encoded messages always
come back as they were sent; around a bad frame the cut does not matter
exactly when no message precedes it. -/
theorem frames_cut_independent_iff {lib : JsonLibrary} {max : Int} {c : FrameCodec}
    (hempty : lib.loads [] = .error .notUtf8Json) (hc : FrameCodec.init max = .ok c) :
    (∀ (messages : List JsonObject) (frames chunks : List (List UInt8)),
        (∀ m ∈ messages, HasType m) → (∀ m ∈ messages, lib.Inverts m) →
        messages.mapM (c.encode lib) = .ok frames → chunks.flatten = frames.flatten →
        ∃ received c', c.feedAll lib chunks = (received, none, c')
          ∧ List.Forall₂ SameObject received messages ∧ c'.pendingBytes = 0)
      ∧ ∀ stream, CutIndependent lib c stream ↔ ¬ LateBadFrame lib c.maxFrameBytes stream := by
  have hbuffer : c.buffer = [] := by
    unfold FrameCodec.init at hc
    split at hc
    · obtain rfl := Except.ok.inj hc
      rfl
    · cases hc
  constructor
  · intro messages frames chunks htype hinv hframes hchunks
    obtain ⟨received, hdrain, hreceived⟩ := drain_encoded hempty htype hinv hframes
    have hdeliver : (c.decoder lib).deliver chunks [] = (received, none, []) :=
      StreamDecoder.deliver_of_drain (c.decoder lib).next_nil (by
        rw [List.nil_append, hchunks, hdrain])
    refine ⟨received, { c with buffer := [] }, ?_, hreceived, rfl⟩
    rw [FrameCodec.feedAll_eq, hbuffer, hdeliver]
  · exact fun stream => cutIndependent_iff hbuffer

/-- `{"type":""}`. -/
def heartbeatPayload : List UInt8 := [123, 34, 116, 121, 112, 101, 34, 58, 34, 34, 125]

def heartbeat : JsonObject := [("type", .str "")]

/-- The JSON library as far as heartbeats go. -/
def heartbeatLibrary : JsonLibrary where
  dumps _ := heartbeatPayload
  loads raw := if raw = heartbeatPayload then .ok (.obj heartbeat) else .error .notUtf8Json

def heartbeatCodec : FrameCodec := ⟨64, [], by decide⟩

theorem frames_cut_independent_heartbeats :
    ∃ received c', heartbeatCodec.feedAll heartbeatLibrary
        [(frame heartbeatPayload).take 2, (frame heartbeatPayload).drop 2 ++ frame heartbeatPayload]
        = (received, none, c')
      ∧ List.Forall₂ SameObject received [heartbeat, heartbeat] ∧ c'.pendingBytes = 0 := by
  have hinit : FrameCodec.init 64 = .ok heartbeatCodec := rfl
  have hinv : heartbeatLibrary.Inverts heartbeat := ⟨heartbeat, rfl, fun _ => rfl⟩
  refine (frames_cut_independent_iff rfl hinit).1 [heartbeat, heartbeat]
    [frame heartbeatPayload, frame heartbeatPayload] _ ?_ ?_ rfl rfl
  · simp [HasType, heartbeat, Dict.get?]
  · simpa using hinv

/-- A heartbeat, then a frame of length zero. In one piece nothing is
delivered, cut after the heartbeat the heartbeat is. -/
theorem bad_frame_swallows_message :
    ¬ CutIndependent heartbeatLibrary heartbeatCodec (frame heartbeatPayload ++ [0, 0, 0, 0]) := by
  rw [cutIndependent_iff rfl, not_not]
  refine ⟨[heartbeatPayload], [0, 0, 0, 0], by simp, ?_, .inl ⟨by decide, by decide⟩, by simp⟩
  intro payload hpayload
  obtain rfl := List.mem_singleton.mp hpayload
  exact ⟨⟨by decide, by decide⟩, heartbeat, rfl⟩

end MineBot
