import Mathlib

/-!
# The RCON client

`RconClient._request` reads a response of several packets that have no
end marker. The server cuts a response after every 4096 UTF-16 code
units; the client takes a packet for the last one when its text has
fewer than 4096 characters. Both agree on a chunk without supplementary
characters, and a request is read whole exactly when all chunks but the
last are such (`responses_whole_iff`).

The socket hands out what the server sent in pieces of its own choice. A
read with nothing left to come times out: between the packets of a
response the server pauses less than the client waits. Texts are lists
of characters, and what `errors="replace"` makes of bytes that are no
UTF-8 is a parameter.
-/

namespace MineBot

namespace Rcon

/-- `RCON_RESPONSE_CHUNK_CHARS`. -/
def responseChunkChars : Nat := 4096

/-- `MAX_PACKET_BYTES`. -/
def maxPacketBytes : Nat := responseChunkChars * 3 + 10

inductive RconError where
  /-- RCON authentication failed -/
  | authentication
  /-- RCON response id mismatch: stream desynced -/
  | desyncId
  /-- RCON response size above ceiling: stream desynced -/
  | desyncSize
  /-- RCON response missing terminator -/
  | terminator
  /-- RCON response drain timed out mid-packet -/
  | midPacket
  /-- `socket.timeout` -/
  | timeout
  /-- `struct.error` -/
  | pack
deriving DecidableEq

/-- What `_read_optional_response_packet` raises for a timeout. -/
def RconError.midPacketTimeout : RconError → RconError
  | .timeout => .midPacket
  | e => e

/-! ## Integers and texts -/

/-- `struct.pack("<i", n)`. -/
def packI32 (n : Int) : List UInt8 :=
  let u := (n % 2 ^ 32).toNat
  [.ofNat u, .ofNat (u / 2 ^ 8), .ofNat (u / 2 ^ 16), .ofNat (u / 2 ^ 24)]

/-- `struct.pack("<i", n)` does not raise. -/
def FitsI32 (n : Int) : Prop := -2 ^ 31 ≤ n ∧ n < 2 ^ 31

instance (n : Int) : Decidable (FitsI32 n) := inferInstanceAs (Decidable (_ ∧ _))

/-- `struct.unpack("<i", bytes)[0]`. -/
def unpackI32 (bytes : List UInt8) : Int :=
  let u : Int := bytes.foldr (fun b n => b.toNat + n * 2 ^ 8) 0
  if u < 2 ^ 31 then u else u - 2 ^ 32

/-- `text.encode("utf-8")`. -/
def encode (text : List Char) : List UInt8 := text.flatMap String.utf8EncodeChar

/-- The length of a text in Java. -/
def utf16Length (text : List Char) : Nat :=
  (text.map fun c => if c.toNat < 2 ^ 16 then 1 else 2).sum

/-! ## The socket -/

/-- The client's end of the connection. -/
structure Socket where
  /-- what the server sent and the client has not read -/
  pending : List UInt8
  /-- how much the n-th read returns at most -/
  piece : Nat → Nat
  reads : Nat := 0

/-- `recv(n)`, with something to come. -/
def Socket.recv (s : Socket) (n : Nat) : List UInt8 × Socket :=
  let k := min n (max 1 (s.piece s.reads))
  (s.pending.take k, { s with pending := s.pending.drop k, reads := s.reads + 1 })

/-- The loop of `_recv_exact`, at most as many reads as bytes. -/
def recvLoop : Nat → Nat → List UInt8 → Socket → Except RconError (List UInt8) × Socket
  | 0, _, chunks, s => (.ok chunks, s)
  | fuel + 1, remaining, chunks, s =>
      if remaining = 0 then (.ok chunks, s)
      else if s.pending = [] then (.error .timeout, s)
      else
        let (chunk, s) := s.recv remaining
        recvLoop fuel (remaining - chunk.length) (chunks ++ chunk) s

/-- `_recv_exact`. -/
def recvExact (n : Nat) (s : Socket) : Except RconError (List UInt8) × Socket :=
  recvLoop n n [] s

/-- `_recv_optional_exact`: nothing where the first read times out. -/
def recvOptionalExact (n : Nat) (s : Socket) : Except RconError (Option (List UInt8)) × Socket :=
  if s.pending = [] then (.ok none, s)
  else
    let (bytes, s) := recvExact n s
    (bytes.map some, s)

/-! ## Requests -/

structure Packet where
  size : Int
  respId : Int
  text : List Char
deriving DecidableEq

section

variable (replace : List UInt8 → List Char)

/-- `bytes.decode("utf-8", errors="replace")`. -/
def decode (bytes : List UInt8) : List Char :=
  match bytes.toByteArray.utf8Decode? with
  | some text => text.toList
  | none => replace bytes

/-- `_decode_response_packet`. -/
def decodeResponsePacket (header : List UInt8) (s : Socket) : Except RconError Packet × Socket :=
  let size := unpackI32 header
  if size < 10 ∨ (maxPacketBytes : Int) < size then (.error .desyncSize, s)
  else
    match recvExact size.toNat s with
    | (.error e, s) => (.error e, s)
    | (.ok data, s) =>
        if data.drop (data.length - 2) ≠ [0, 0] then (.error .terminator, s)
        else
          (.ok { size := size
                 respId := unpackI32 (data.take 4)
                 text := decode replace ((data.take (data.length - 2)).drop 8) }, s)

/-- `_read_response_packet`. -/
def readResponsePacket (s : Socket) : Except RconError Packet × Socket :=
  match recvExact 4 s with
  | (.error e, s) => (.error e, s)
  | (.ok header, s) => decodeResponsePacket replace header s

/-- `_read_optional_response_packet`: a timeout in a packet fails. -/
def readOptionalResponsePacket (s : Socket) : Except RconError (Option Packet) × Socket :=
  match recvOptionalExact 4 s with
  | (.error e, s) => (.error e.midPacketTimeout, s)
  | (.ok none, s) => (.ok none, s)
  | (.ok (some header), s) =>
      match decodeResponsePacket replace header s with
      | (.error e, s) => (.error e.midPacketTimeout, s)
      | (.ok packet, s) => (.ok (some packet), s)

/-- The loop of `_request` for a command. Each packet takes bytes off the
stream. -/
def responseLoop (reqId : Int) :
    Nat → Packet → List Char → Socket → Except RconError (List Char) × Socket
  | 0, _, parts, s => (.ok parts, s)
  | fuel + 1, packet, parts, s =>
      if packet.respId = -1 then (.error .authentication, s)
      else if packet.respId ≠ reqId then (.error .desyncId, s)
      else if packet.text.length < responseChunkChars then (.ok (parts ++ packet.text), s)
      else
        match readOptionalResponsePacket replace s with
        | (.error e, s) => (.error e, s)
        | (.ok none, s) => (.ok (parts ++ packet.text), s)
        | (.ok (some next), s) => responseLoop reqId fuel next (parts ++ packet.text) s

/-- The request can be packed: its id and its length. -/
def Packs (reqId : Int) (command : List Char) : Prop :=
  FitsI32 reqId ∧ FitsI32 (10 + (encode command).length)

instance (reqId : Int) (command : List Char) : Decidable (Packs reqId command) :=
  inferInstanceAs (Decidable (_ ∧ _))

/-- A packet as the server sends it. -/
def serverPacket (reqId : Int) (text : List Char) : List UInt8 :=
  packI32 (10 + (encode text).length) ++ packI32 reqId ++ packI32 0 ++ encode text ++ [0, 0]

/-- A response: the chunks of its text. All but the last have 4096 code units,
and only an empty text has an empty chunk. -/
structure Response where
  init : List (List Char)
  last : List Char
  full : ∀ chunk ∈ init, utf16Length chunk = responseChunkChars
  short : utf16Length last ≤ responseChunkChars
  nonempty : last = [] → init = []

def Response.chunks (r : Response) : List (List Char) := r.init ++ [r.last]

def Response.text (r : Response) : List Char := r.chunks.flatten

/-- `_request` of a command, and the server's response to it. -/
def request (reqId : Int) (command : List Char) (response : Response) (s : Socket) :
    Except RconError (List Char) × Socket :=
  if ¬ Packs reqId command then (.error .pack, s)
  else
    let s := { s with pending := s.pending ++ response.chunks.flatMap (serverPacket reqId) }
    match readResponsePacket replace s with
    | (.error e, s) => (.error e, s)
    | (.ok packet, s) => responseLoop replace reqId s.pending.length.succ packet [] s

/-- Commands on one connection: what each returns and what it leaves unread. -/
def requests (reqId : Int) (s : Socket) :
    List (List Char × Response) → List (Except RconError (List Char) × List UInt8)
  | [] => []
  | (command, response) :: rest =>
      let (result, s) := request replace reqId command response s
      (result, s.pending) :: requests (reqId + 1) s rest

end

/-! ## What is packed is read back -/

theorem length_packI32 (n : Int) : (packI32 n).length = 4 := rfl

theorem packI32_ne_nil (n : Int) : packI32 n ≠ [] := List.cons_ne_nil _ _

theorem unpackI32_packI32 {n : Int} (h : FitsI32 n) : unpackI32 (packI32 n) = n := by
  obtain ⟨hlow, hhigh⟩ := h
  simp only [unpackI32, packI32, List.foldr_cons, List.foldr_nil, UInt8.toNat_ofNat']
  have hu : ((n % 2 ^ 32).toNat : Int) = n % 2 ^ 32 := Int.toNat_of_nonneg (by omega)
  generalize (n % 2 ^ 32).toNat = u at hu
  have hbytes : (((u % 2 ^ 8 : Nat) : Int) + (((u / 2 ^ 8 % 2 ^ 8 : Nat) : Int)
      + (((u / 2 ^ 16 % 2 ^ 8 : Nat) : Int) + (((u / 2 ^ 24 % 2 ^ 8 : Nat) : Int) + 0 * 2 ^ 8)
        * 2 ^ 8) * 2 ^ 8) * 2 ^ 8) = u := by
    omega
  rw [hbytes]
  split <;> omega

theorem decode_encode (replace : List UInt8 → List Char) (text : List Char) :
    decode replace (encode text) = text := by
  have hdecode : (encode text).toByteArray.utf8Decode? = some text.toArray :=
    List.utf8Decode?_utf8Encode
  rw [decode, hdecode]

/-- A code unit takes at most three bytes. -/
theorem length_encode_le (text : List Char) :
    (encode text).length ≤ utf16Length text * 3 := by
  induction text with
  | nil => exact Nat.le_refl 0
  | cons c text ih =>
      have hc : (String.utf8EncodeChar c).length ≤ (if c.toNat < 2 ^ 16 then 1 else 2) * 3 := by
        rw [String.length_utf8EncodeChar]
        have hmax := Char.utf8Size_le_four c
        split
        · next hsmall =>
            have hnot : c.utf8Size ≠ 4 := fun hfour => by
              have hval := UInt32.lt_iff_toNat_lt.mp (Char.utf8Size_eq_four_iff.mp hfour)
              have hsmall : c.val.toNat < 65536 := hsmall
              simp at hval
              omega
            omega
        · omega
      simp only [encode, List.flatMap_cons, List.length_append, utf16Length, List.map_cons,
        List.sum_cons] at ih ⊢
      omega

/-! ## Reading -/

/-- However the socket cuts the stream, the loop takes the bytes it needs. -/
theorem recvLoop_eq (fuel : Nat) : ∀ remaining chunks (s : Socket), remaining ≤ fuel →
    remaining ≤ s.pending.length →
    ∃ s', recvLoop fuel remaining chunks s = (.ok (chunks ++ s.pending.take remaining), s')
      ∧ s'.pending = s.pending.drop remaining := by
  induction fuel with
  | zero =>
      intro remaining chunks s hfuel _
      obtain rfl := Nat.le_zero.mp hfuel
      exact ⟨s, by simp [recvLoop], by simp⟩
  | succ fuel ih =>
      intro remaining chunks s hfuel hlen
      rw [recvLoop]
      by_cases hzero : remaining = 0
      · subst hzero
        exact ⟨s, by simp, by simp⟩
      · have hne : s.pending ≠ [] := by
          intro hnil
          rw [hnil] at hlen
          exact hzero (Nat.le_zero.mp hlen)
        rw [if_neg hzero, if_neg hne]
        simp only [Socket.recv]
        set k := min remaining (max 1 (s.piece s.reads)) with hk
        have hchunk : (s.pending.take k).length = k := by
          rw [List.length_take]
          omega
        rw [hchunk]
        obtain ⟨s', hrest, hpending⟩ := ih (remaining - k) (chunks ++ s.pending.take k)
          { s with pending := s.pending.drop k, reads := s.reads + 1 } (by omega)
          (by simp only [List.length_drop]; omega)
        refine ⟨s', ?_, ?_⟩
        · rw [hrest]
          simp only [List.append_assoc]
          rw [← List.take_add]
          have hsum : k + (remaining - k) = remaining := by omega
          rw [hsum]
        · rw [hpending]
          simp only [List.drop_drop]
          have hsum : k + (remaining - k) = remaining := by omega
          rw [hsum]

/-- A read of the front of the stream. -/
theorem recvExact_append {front rest : List UInt8} {s : Socket} (h : s.pending = front ++ rest) :
    ∃ s', recvExact front.length s = (.ok front, s') ∧ s'.pending = rest := by
  have hlen : front.length ≤ s.pending.length := by
    rw [h, List.length_append]
    omega
  obtain ⟨s', hread, hpending⟩ := recvLoop_eq front.length front.length [] s (Nat.le_refl _) hlen
  refine ⟨s', ?_, ?_⟩
  · rw [recvExact, hread, h, List.nil_append, List.take_left]
  · rw [hpending, h, List.drop_left]

/-! ## Packets -/

variable (replace : List UInt8 → List Char)

/-- The text of a packet that the client accepts. -/
def Short (text : List Char) : Prop := utf16Length text ≤ responseChunkChars

instance (text : List Char) : Decidable (Short text) := inferInstanceAs (Decidable (_ ≤ _))

theorem Short.size {text : List Char} (h : Short text) :
    10 + (encode text).length ≤ maxPacketBytes ∧ FitsI32 (10 + ((encode text).length : Int)) := by
  have hle := length_encode_le text
  have hmul : utf16Length text * 3 ≤ responseChunkChars * 3 := Nat.mul_le_mul_right 3 h
  simp only [maxPacketBytes, FitsI32, responseChunkChars] at *
  omega

/-- What follows the length of a packet. -/
def packetData (reqId : Int) (text : List Char) : List UInt8 :=
  packI32 reqId ++ packI32 0 ++ encode text ++ [0, 0]

theorem length_packetData (reqId : Int) (text : List Char) :
    (packetData reqId text).length = 10 + (encode text).length := by
  simp only [packetData, List.length_append, length_packI32, List.length_cons, List.length_nil]
  omega

theorem serverPacket_eq (reqId : Int) (text : List Char) :
    serverPacket reqId text
      = packI32 (10 + (encode text).length) ++ packetData reqId text := by
  simp [serverPacket, packetData]

theorem decodeResponsePacket_append {reqId : Int} (hid : FitsI32 reqId) {text : List Char}
    (htext : Short text) {rest : List UInt8} {s : Socket}
    (h : s.pending = packetData reqId text ++ rest) :
    ∃ s', decodeResponsePacket replace (packI32 (10 + (encode text).length)) s
        = (.ok ⟨10 + (encode text).length, reqId, text⟩, s') ∧ s'.pending = rest := by
  obtain ⟨hmax, hfits⟩ := htext.size
  obtain ⟨s', hread, hpending⟩ := recvExact_append h
  refine ⟨s', ?_, hpending⟩
  have hsize : ((10 + ((encode text).length : Int)).toNat) = (packetData reqId text).length := by
    rw [length_packetData]
    omega
  have hlast : (packetData reqId text).drop ((packetData reqId text).length - 2) = [0, 0] := by
    rw [packetData, List.length_append]
    simp
  have hid' : unpackI32 ((packetData reqId text).take 4) = reqId := by
    have htake : (packetData reqId text).take 4 = packI32 reqId := by
      simp only [packetData, List.append_assoc]
      exact List.take_left' rfl
    rw [htake, unpackI32_packI32 hid]
  have hbody : ((packetData reqId text).take ((packetData reqId text).length - 2)).drop 8
      = encode text := by
    have htake : (packetData reqId text).take ((packetData reqId text).length - 2)
        = packI32 reqId ++ packI32 0 ++ encode text := by
      rw [packetData, List.length_append, List.length_cons, List.length_singleton,
        Nat.add_sub_cancel]
      exact List.take_left' rfl
    rw [htake]
    exact List.drop_left' rfl
  simp only [decodeResponsePacket, unpackI32_packI32 hfits]
  rw [if_neg (by omega), hsize, hread]
  simp only [hlast, hid', hbody, decode_encode]
  simp

theorem readResponsePacket_append {reqId : Int} (hid : FitsI32 reqId) {text : List Char}
    (htext : Short text) {rest : List UInt8} {s : Socket}
    (h : s.pending = serverPacket reqId text ++ rest) :
    ∃ s', readResponsePacket replace s
        = (.ok ⟨10 + (encode text).length, reqId, text⟩, s') ∧ s'.pending = rest := by
  rw [serverPacket_eq, List.append_assoc] at h
  obtain ⟨s₁, hread, hpending⟩ := recvExact_append h
  obtain ⟨s₂, hdecode, hrest⟩ := decodeResponsePacket_append replace hid htext hpending
  rw [length_packI32] at hread
  refine ⟨s₂, ?_, hrest⟩
  simp only [readResponsePacket, hread]
  exact hdecode

theorem recvOptionalExact_append {front rest : List UInt8} {s : Socket}
    (h : s.pending = front ++ rest) (hne : front ≠ []) :
    ∃ s', recvOptionalExact front.length s = (.ok (some front), s') ∧ s'.pending = rest := by
  have hpending : s.pending ≠ [] := by
    rw [h]
    exact List.append_ne_nil_of_left_ne_nil hne rest
  obtain ⟨s', hread, hrest⟩ := recvExact_append h
  refine ⟨s', ?_, hrest⟩
  rw [recvOptionalExact, if_neg hpending, hread]
  rfl

theorem readOptionalResponsePacket_ok {header : List UInt8} {packet : Packet} {s s₁ s₂ : Socket}
    (hread : recvOptionalExact 4 s = (.ok (some header), s₁))
    (hdecode : decodeResponsePacket replace header s₁ = (.ok packet, s₂)) :
    readOptionalResponsePacket replace s = (.ok (some packet), s₂) := by
  simp only [readOptionalResponsePacket, hread, hdecode]

theorem readOptionalResponsePacket_append {reqId : Int} (hid : FitsI32 reqId) {text : List Char}
    (htext : Short text) {rest : List UInt8} {s : Socket}
    (h : s.pending = serverPacket reqId text ++ rest) :
    ∃ s', readOptionalResponsePacket replace s
        = (.ok (some ⟨10 + (encode text).length, reqId, text⟩), s') ∧ s'.pending = rest := by
  rw [serverPacket_eq, List.append_assoc] at h
  obtain ⟨s₁, hread, hpending⟩ := recvOptionalExact_append h (packI32_ne_nil _)
  obtain ⟨s₂, hdecode, hrest⟩ := decodeResponsePacket_append replace hid htext hpending
  rw [length_packI32] at hread
  exact ⟨s₂, readOptionalResponsePacket_ok replace hread hdecode, hrest⟩

theorem readOptionalResponsePacket_nil {s : Socket} (h : s.pending = []) :
    readOptionalResponsePacket replace s = (.ok none, s) := by
  simp [readOptionalResponsePacket, recvOptionalExact, h]

/-! ## Responses -/

/-- The chunks the client takes for the response. -/
def heard : List (List Char) → List (List Char)
  | [] => []
  | chunk :: rest =>
      if chunk.length < responseChunkChars then [chunk] else chunk :: heard rest

/-- The chunks the client leaves in the stream. -/
def unheard : List (List Char) → List (List Char)
  | [] => []
  | chunk :: rest => if chunk.length < responseChunkChars then rest else unheard rest

theorem length_serverPacket_pos (reqId : Int) (text : List Char) :
    0 < (serverPacket reqId text).length := by
  rw [serverPacket_eq, List.length_append, length_packI32]
  omega

theorem length_le_flatMap_serverPacket (reqId : Int) (chunks : List (List Char)) :
    chunks.length ≤ (chunks.flatMap (serverPacket reqId)).length := by
  induction chunks with
  | nil => exact Nat.le_refl 0
  | cons chunk chunks ih =>
      have hpos := length_serverPacket_pos reqId chunk
      rw [List.flatMap_cons, List.length_append, List.length_cons]
      omega

/-- The loop reads up to the first chunk that looks short to the client. -/
theorem responseLoop_chunks {reqId : Int} (hid : FitsI32 reqId) (hpos : 1 ≤ reqId)
    (chunks : List (List Char)) :
    ∀ fuel size text parts (s : Socket), (∀ chunk ∈ chunks, Short chunk) →
      s.pending = chunks.flatMap (serverPacket reqId) → chunks.length < fuel →
      ∃ s', responseLoop replace reqId fuel ⟨size, reqId, text⟩ parts s
          = (.ok (parts ++ (heard (text :: chunks)).flatten), s')
        ∧ s'.pending = (unheard (text :: chunks)).flatMap (serverPacket reqId) := by
  have hauth : reqId ≠ -1 := by omega
  induction chunks with
  | nil =>
      intro fuel size text parts s _ hpending hfuel
      obtain ⟨fuel, rfl⟩ := Nat.exists_eq_succ_of_ne_zero (Nat.ne_zero_of_lt hfuel)
      refine ⟨s, ?_, ?_⟩
      · rw [responseLoop, if_neg hauth, if_neg (not_not_intro rfl), heard]
        split
        · simp
        · rw [readOptionalResponsePacket_nil replace hpending]
          simp [heard]
      · rw [hpending, unheard]
        split <;> rfl
  | cons next chunks ih =>
      intro fuel size text parts s hshort hpending hfuel
      obtain ⟨fuel, rfl⟩ := Nat.exists_eq_succ_of_ne_zero (Nat.ne_zero_of_lt hfuel)
      rw [responseLoop, if_neg hauth, if_neg (not_not_intro rfl), heard, unheard]
      by_cases hlen : text.length < responseChunkChars
      · rw [if_pos hlen, if_pos hlen, if_pos hlen]
        exact ⟨s, by simp, hpending⟩
      · rw [if_neg hlen, if_neg hlen, if_neg hlen]
        rw [List.flatMap_cons] at hpending
        obtain ⟨s₁, hread, hrest⟩ := readOptionalResponsePacket_append replace hid
          (hshort next (List.mem_cons_self ..)) hpending
        obtain ⟨s₂, hloop, hleft⟩ := ih fuel (10 + (encode next).length) next (parts ++ text) s₁
          (fun chunk hchunk => hshort chunk (List.mem_cons_of_mem _ hchunk)) hrest
          (Nat.lt_of_succ_lt_succ hfuel)
        refine ⟨s₂, ?_, hleft⟩
        simp only [hread, hloop, List.flatten_cons, List.append_assoc]

theorem Response.chunk_short (r : Response) {chunk : List Char} (h : chunk ∈ r.chunks) :
    Short chunk := by
  rw [Response.chunks, List.mem_append, List.mem_singleton] at h
  rcases h with hinit | rfl
  · exact Nat.le_of_eq (r.full chunk hinit)
  · exact r.short

theorem Response.chunks_ne_nil (r : Response) : r.chunks ≠ [] :=
  List.append_ne_nil_of_right_ne_nil r.init (List.cons_ne_nil _ _)

theorem request_chunks {reqId : Int} (hpos : 1 ≤ reqId) {command : List Char}
    (hpacks : Packs reqId command) (r : Response) {s : Socket} (hs : s.pending = []) :
    ∃ s', request replace reqId command r s = (.ok (heard r.chunks).flatten, s')
      ∧ s'.pending = (unheard r.chunks).flatMap (serverPacket reqId) := by
  obtain ⟨first, rest, hchunks⟩ := List.exists_cons_of_ne_nil r.chunks_ne_nil
  have hshort : ∀ chunk ∈ first :: rest, Short chunk := by
    intro chunk hchunk
    rw [← hchunks] at hchunk
    exact r.chunk_short hchunk
  rw [request, if_neg (not_not_intro hpacks), hs, hchunks, List.flatMap_cons, List.nil_append]
  obtain ⟨s₁, hread, hpending⟩ := readResponsePacket_append replace
    (s := { s with pending := serverPacket reqId first ++ rest.flatMap (serverPacket reqId) })
    hpacks.1 (hshort first (List.mem_cons_self ..)) rfl
  have hfuel := length_le_flatMap_serverPacket reqId rest
  rw [← hpending] at hfuel
  obtain ⟨s₂, hloop, hleft⟩ := responseLoop_chunks replace hpacks.1 hpos rest
    s₁.pending.length.succ (10 + (encode first).length) first [] s₁
    (fun chunk hchunk => hshort chunk (List.mem_cons_of_mem _ hchunk)) hpending
    (Nat.lt_succ_of_le hfuel)
  refine ⟨s₂, ?_, hleft⟩
  simp only [hread, hloop, List.nil_append]

/-! ## Whole responses -/

theorem length_le_utf16Length (text : List Char) : text.length ≤ utf16Length text := by
  induction text with
  | nil => exact Nat.le_refl 0
  | cons c text ih =>
      simp only [utf16Length, List.map_cons, List.sum_cons, List.length_cons] at ih ⊢
      split <;> omega

/-- Without supplementary characters a text has as many code units as
characters. -/
theorem length_eq_utf16Length_iff (text : List Char) :
    text.length = utf16Length text ↔ ∀ c ∈ text, c.toNat < 2 ^ 16 := by
  induction text with
  | nil => simp [utf16Length]
  | cons c text ih =>
      have hle := length_le_utf16Length text
      rw [List.forall_mem_cons]
      refine Iff.trans ?_ (and_congr_right' ih)
      simp only [utf16Length, List.map_cons, List.sum_cons, List.length_cons] at hle ⊢
      split <;> omega

/-- The client hears a response out if no chunk but the last looks short. -/
theorem unheard_append_eq_nil_iff (init : List (List Char)) (last : List Char) :
    unheard (init ++ [last]) = [] ↔ ∀ chunk ∈ init, ¬ chunk.length < responseChunkChars := by
  induction init with
  | nil => simp [unheard]
  | cons chunk init ih =>
      rw [List.cons_append, unheard, List.forall_mem_cons, ← ih]
      by_cases hlen : chunk.length < responseChunkChars
      · rw [if_pos hlen]
        simp [hlen]
      · rw [if_neg hlen]
        simp [hlen]

theorem heard_append_unheard (chunks : List (List Char)) :
    heard chunks ++ unheard chunks = chunks := by
  induction chunks with
  | nil => rfl
  | cons chunk chunks ih =>
      rw [heard, unheard]
      split
      · rfl
      · rw [List.cons_append, ih]

/-- No supplementary character stands before the last chunk. -/
def Response.Basic (r : Response) : Prop := ∀ chunk ∈ r.init, ∀ c ∈ chunk, c.toNat < 2 ^ 16

theorem Response.unheard_eq_nil_iff (r : Response) : unheard r.chunks = [] ↔ r.Basic := by
  rw [Response.chunks, unheard_append_eq_nil_iff]
  refine forall₂_congr fun chunk hchunk => ?_
  rw [← length_eq_utf16Length_iff, r.full chunk hchunk]
  have hle := length_le_utf16Length chunk
  rw [r.full chunk hchunk] at hle
  omega

/-- A request is answered whole if it can be packed and the client hears its
response out. -/
theorem request_whole_iff {reqId : Int} (hpos : 1 ≤ reqId) (command : List Char) (r : Response)
    {s : Socket} (hs : s.pending = []) :
    ((request replace reqId command r s).1, (request replace reqId command r s).2.pending)
        = (.ok r.text, [])
      ↔ Packs reqId command ∧ r.Basic := by
  by_cases hpacks : Packs reqId command
  · obtain ⟨s', hrequest, hleft⟩ := request_chunks replace hpos hpacks r hs
    rw [hrequest, hleft, ← r.unheard_eq_nil_iff]
    constructor
    · intro h
      refine ⟨hpacks, ?_⟩
      have hnil := (Prod.mk.inj h).2
      have hlen := length_le_flatMap_serverPacket reqId (unheard r.chunks)
      rw [hnil] at hlen
      exact List.length_eq_zero_iff.mp (Nat.le_zero.mp hlen)
    · rintro ⟨-, hnil⟩
      have hall := heard_append_unheard r.chunks
      rw [hnil, List.append_nil] at hall
      rw [hnil, hall]
      rfl
  · rw [request, if_pos hpacks]
    simp [hpacks]

/-- A call that finds a packet of an earlier one in the stream fails. -/
theorem request_desync {staleId reqId : Int} (hstale : FitsI32 staleId) (hpos : 1 ≤ staleId)
    (hne : staleId ≠ reqId) {command : List Char} (hpacks : Packs reqId command) (r : Response)
    {text : List Char} (htext : Short text) {rest : List UInt8} {s : Socket}
    (hs : s.pending = serverPacket staleId text ++ rest) :
    (request replace reqId command r s).1 = .error .desyncId := by
  have hauth : staleId ≠ -1 := by omega
  rw [request, if_neg (not_not_intro hpacks), hs, List.append_assoc]
  obtain ⟨s₁, hread, -⟩ := readResponsePacket_append replace
    (s := { s with pending := serverPacket staleId text
      ++ (rest ++ r.chunks.flatMap (serverPacket reqId)) }) hstale htext rfl
  simp only [hread]
  rw [responseLoop, if_neg hauth, if_pos hne]

/-- The i-th call returns the i-th response and leaves nothing of it unread,
for all calls, exactly when every request can be packed and no response has a
supplementary character before its last chunk. -/
theorem responses_whole_iff {reqId : Int} (hpos : 1 ≤ reqId)
    {s : Socket} (hs : s.pending = []) (exchanges : List (List Char × Response)) :
    requests replace reqId s exchanges = exchanges.map (fun e => (.ok e.2.text, []))
      ↔ ∀ i (h : i < exchanges.length),
          Packs (reqId + i) exchanges[i].1 ∧ exchanges[i].2.Basic := by
  induction exchanges generalizing reqId s with
  | nil => simp [requests]
  | cons e rest ih =>
      obtain ⟨command, r⟩ := e
      have hfirst := request_whole_iff replace hpos command r hs
      rw [requests, List.map_cons, List.cons.injEq, hfirst]
      constructor
      · rintro ⟨hwhole, hrest⟩
        have hs' := (Prod.mk.inj (hfirst.mpr hwhole)).2
        have hlater := (ih (by omega) hs').mp hrest
        intro i h
        cases i with
        | zero => simpa using hwhole
        | succ i =>
            have hi := hlater i (Nat.lt_of_succ_lt_succ h)
            have hid : reqId + ((i + 1 : Nat) : Int) = reqId + 1 + i := by omega
            rwa [List.getElem_cons_succ, hid]
      · intro hall
        have hwhole : Packs reqId command ∧ r.Basic := by
          simpa using hall 0 (Nat.succ_pos _)
        have hs' := (Prod.mk.inj (hfirst.mpr hwhole)).2
        refine ⟨hwhole, (ih (by omega) hs').mpr fun i h => ?_⟩
        have hi := hall (i + 1) (Nat.succ_lt_succ h)
        have hid : reqId + ((i + 1 : Nat) : Int) = reqId + 1 + i := by omega
        rwa [List.getElem_cons_succ, hid] at hi

/-- A response of one packet. -/
def okResponse : Response where
  init := []
  last := ['o', 'k']
  full := nofun
  short := by decide
  nonempty := nofun

theorem responses_whole_iff_okResponse :
    requests (fun _ => []) 1 { pending := [], piece := fun _ => 3 } [(['l'], okResponse)]
      = [(.ok ['o', 'k'], [])] :=
  (responses_whole_iff (fun _ => []) (Int.le_refl 1) rfl [(['l'], okResponse)]).mpr fun i h => by
    obtain rfl := Nat.lt_one_iff.mp h
    exact ⟨show Packs 1 ['l'] by decide, nofun⟩

/-- A chunk with an emoji: 4096 code units, 4095 characters. -/
def emojiChunk : List Char := Char.ofNat 0x1F600 :: List.replicate 4094 'a'

theorem utf16Length_emojiChunk : utf16Length emojiChunk = responseChunkChars := by
  rw [emojiChunk, utf16Length, List.map_cons, List.map_replicate, List.sum_cons,
    List.sum_replicate_nat]
  decide

theorem length_emojiChunk : emojiChunk.length < responseChunkChars := by
  rw [emojiChunk, List.length_cons, List.length_replicate]
  decide

def emojiResponse : Response where
  init := [emojiChunk]
  last := ['b']
  full := by
    intro chunk hchunk
    obtain rfl := List.mem_singleton.mp hchunk
    exact utf16Length_emojiChunk
  short := by decide
  nonempty := nofun

theorem heard_emojiResponse : heard emojiResponse.chunks = [emojiChunk] := by
  show heard [emojiChunk, ['b']] = [emojiChunk]
  rw [heard, if_pos length_emojiChunk]

theorem unheard_emojiResponse : unheard emojiResponse.chunks = [['b']] := by
  show unheard [emojiChunk, ['b']] = [['b']]
  rw [unheard, if_pos length_emojiChunk]

theorem request_emojiResponse :
    ∃ s, request (fun _ => []) 1 ['l'] emojiResponse { pending := [], piece := fun _ => 3 }
        = (.ok emojiChunk, s)
      ∧ s.pending = serverPacket 1 ['b'] ++ [] := by
  have hpacks : Packs 1 ['l'] := by decide
  have h := request_chunks (fun _ => []) (Int.le_refl 1) hpacks emojiResponse
    (s := { pending := [], piece := fun _ => 3 }) rfl
  rwa [heard_emojiResponse, unheard_emojiResponse, List.flatMap_cons, List.flatMap_nil,
    List.flatten_singleton] at h

/-- The first of two calls loses the last chunk, the second fails on it. -/
theorem emojiResponse_desync :
    (requests (fun _ => []) 1 { pending := [], piece := fun _ => 3 }
        [(['l'], emojiResponse), (['l'], okResponse)]).map Prod.fst
      = [.ok emojiChunk, .error .desyncId] := by
  obtain ⟨s, hfirst, hleft⟩ := request_emojiResponse
  have hstale : FitsI32 1 := by decide
  have hne : (1 : Int) ≠ 1 + 1 := by decide
  have hpacks : Packs (1 + 1) ['l'] := by decide
  have hshort : Short ['b'] := by decide
  have hsecond := request_desync (fun _ => []) hstale (Int.le_refl 1) hne hpacks okResponse hshort
    hleft
  rw [requests, hfirst, List.map_cons, requests, List.map_cons, requests, List.map_nil]
  rw [hsecond]

end Rcon

end MineBot
