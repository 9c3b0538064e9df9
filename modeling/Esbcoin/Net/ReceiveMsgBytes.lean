import Esbcoin.Lib.Framing
import Esbcoin.Serialize

/-!
# Receiving messages

`CNode::ReceiveMsgBytes` (`src/net.cpp:584-619`) with `CNetMessage` (`src/net.h:175-213`,
`src/net.cpp:621-665`) and the header of `src/protocol.h:22-64`. A copy that would go past a buffer
is `none`. The numbers are natural ones: a message takes part in the sums only while it is within
`MAX_PROTOCOL_MESSAGE_LENGTH`, far below 2^32. The thread that is notified of a complete message is
left out.
-/

namespace Esbcoin

open Bytes List

/-- `CMessageHeader` (`protocol.h:30-64`). -/
structure CMessageHeader where
  pchMessageStart : List UInt8
  pchCommand : List UInt8
  nMessageSize : Nat
  nChecksum : Nat
  deriving DecidableEq

/-- `CMessageHeader()` (`protocol.cpp:31-37`), the bytes of `Params().MessageStart()` given. -/
def CMessageHeader.default (messageStart : List UInt8) : CMessageHeader :=
  ⟨messageStart, List.replicate 12 0, 0xffffffff, 0⟩

/-- `CMessageHeader::SerializationOp` (`protocol.h:41-48`), read. -/
def CMessageHeader.unserialize (s : List UInt8) : Option (CMessageHeader × List UInt8) := do
  let (pchMessageStart, s) ← takeBytes 4 s
  let (pchCommand, s) ← takeBytes 12 s
  let (nMessageSize, s) ← readUnsigned 4 s
  let (nChecksum, s) ← readUnsigned 4 s
  some (⟨pchMessageStart, pchCommand, nMessageSize, nChecksum⟩, s)

/-- `CMessageHeader::SerializationOp`, written. -/
def CMessageHeader.serialize (hdr : CMessageHeader) : List UInt8 :=
  hdr.pchMessageStart ++ hdr.pchCommand ++ littleEndian 4 hdr.nMessageSize ++
    littleEndian 4 hdr.nChecksum

/-- `MAX_PROTOCOL_MESSAGE_LENGTH` (`net.h:53`). -/
def MAX_PROTOCOL_MESSAGE_LENGTH : Nat := 2 * 1024 * 1024

/-- `CNetMessage` (`net.h:175-188`); both streams have the version `nVersion`. -/
structure CNetMessage where
  in_data : Bool
  hdrbuf : List UInt8
  hdr : CMessageHeader
  nHdrPos : Nat
  vRecv : List UInt8
  nDataPos : Nat
  nTime : Int
  nVersion : Int
  deriving DecidableEq

/-- `CNetMessage(nTypeIn, nVersionIn)` (`net.h:190-197`). -/
def CNetMessage.new (messageStart : List UInt8) (nVersionIn : Int) : CNetMessage :=
  ⟨false, List.replicate 24 0, CMessageHeader.default messageStart, 0, [], 0, 0, nVersionIn⟩

namespace CNetMessage

/-- `complete` (`net.h:199-204`). -/
def complete (msg : CNetMessage) : Bool :=
  if !msg.in_data then false else msg.hdr.nMessageSize == msg.nDataPos

/-- `SetVersion` (`net.h:206-210`). -/
def SetVersion (msg : CNetMessage) (nVersionIn : Int) : CNetMessage :=
  { msg with nVersion := nVersionIn }

/-- `memcpy`, within both buffers. -/
def memcpy (buf : List UInt8) (pos : Nat) (pch : List UInt8) (n : Nat) : Option (List UInt8) :=
  if pos + n ≤ buf.length ∧ n ≤ pch.length then
    some (buf.take pos ++ pch.take n ++ buf.drop (pos + n))
  else none

/-- `CDataStream::resize` of a stream that was not read from, with zeros (`streams.h:117`). -/
def resize (buf : List UInt8) (n : Nat) : List UInt8 :=
  buf.take n ++ List.replicate (n - buf.length) 0

/-- `readHeader` (`net.cpp:621-649`): the message and what the call returns. A stream that is read
to its end is empty (`streams.h:212-219`). -/
def readHeader (msg : CNetMessage) (pch : List UInt8) : Option (CNetMessage × Int) := do
  let nRemaining := 24 - msg.nHdrPos
  let nCopy := min nRemaining pch.length
  let hdrbuf ← memcpy msg.hdrbuf msg.nHdrPos pch nCopy
  let msg := { msg with hdrbuf := hdrbuf, nHdrPos := msg.nHdrPos + nCopy }
  if msg.nHdrPos < 24 then
    some (msg, nCopy)
  else
    match CMessageHeader.unserialize msg.hdrbuf with
    | none => some (msg, -1)
    | some (hdr, hdrbuf) =>
        let msg := { msg with hdrbuf := hdrbuf, hdr := hdr }
        if hdr.nMessageSize > MAX_SIZE then
          some (msg, -1)
        else
          some ({ msg with in_data := true }, nCopy)

/-- `readData` (`net.cpp:651-665`). -/
def readData (msg : CNetMessage) (pch : List UInt8) : Option (CNetMessage × Int) := do
  let nRemaining := msg.hdr.nMessageSize - msg.nDataPos
  let nCopy := min nRemaining pch.length
  let vRecv :=
    if msg.vRecv.length < msg.nDataPos + nCopy then
      resize msg.vRecv (min msg.hdr.nMessageSize (msg.nDataPos + nCopy + 256 * 1024))
    else msg.vRecv
  let vRecv ← memcpy vRecv msg.nDataPos pch nCopy
  some ({ msg with vRecv := vRecv, nDataPos := msg.nDataPos + nCopy }, nCopy)

end CNetMessage

/-- What receiving reads and writes of a `CNode` (`net.h:231-240`). -/
structure CNode where
  vRecvMsg : List CNetMessage
  nRecvVersion : Int
  deriving DecidableEq

/-- What a call comes to: it returns, it copies past a buffer, or it does not end. -/
inductive Receipt where
  | returned (accepted : Bool) (node : CNode)
  | pastBuffer
  | endless
  deriving DecidableEq

namespace CNode

variable (messageStart : List UInt8)

/-- The current incomplete message, or a new one, behind the others (`net.cpp:588-592`). -/
def current (node : CNode) : List CNetMessage × CNetMessage :=
  match node.vRecvMsg.getLast? with
  | none => ([], CNetMessage.new messageStart node.nRecvVersion)
  | some back =>
      if back.complete then (node.vRecvMsg, CNetMessage.new messageStart node.nRecvVersion)
      else (node.vRecvMsg.dropLast, back)

/-- The loop of `ReceiveMsgBytes`, at most `fuel` times; `clock` is `GetTimeMicros` when so many
bytes are left. -/
def receiveLoop (clock : Nat → Int) : Nat → CNode → List UInt8 → Receipt
  | fuel, node, pch =>
    if pch.length > 0 then
      match fuel with
      | 0 => .endless
      | fuel + 1 =>
        let (others, msg) := node.current messageStart
        match if !msg.in_data then msg.readHeader pch else msg.readData pch with
        | none => .pastBuffer
        | some (msg, handled) =>
            if handled < 0 then
              .returned false { node with vRecvMsg := others ++ [msg] }
            else if msg.in_data ∧ msg.hdr.nMessageSize > MAX_PROTOCOL_MESSAGE_LENGTH then
              .returned false { node with vRecvMsg := others ++ [msg] }
            else
              let pch := pch.drop handled.toNat
              let msg := if msg.complete then { msg with nTime := clock pch.length } else msg
              receiveLoop clock fuel { node with vRecvMsg := others ++ [msg] } pch
    else .returned true node

/-- `ReceiveMsgBytes` (`net.cpp:584-619`). -/
def ReceiveMsgBytes (node : CNode) (clock : Nat → Int) (pch : List UInt8) : Receipt :=
  receiveLoop messageStart clock pch.length node pch

/-- `GetTotalRecvSize` (`net.h:341-347`). -/
def GetTotalRecvSize (node : CNode) : Nat :=
  (node.vRecvMsg.map fun msg => msg.vRecv.length + 24).sum

/-- `SetRecvVersion` (`net.h:353-358`). -/
def SetRecvVersion (node : CNode) (nVersionIn : Int) : CNode :=
  ⟨node.vRecvMsg.map fun msg => msg.SetVersion nVersionIn, nVersionIn⟩

/-- The socket loop: one call for each chunk, until one says to disconnect (`net.cpp:929-932`). -/
def receiveChunks (node : CNode) : List ((Nat → Int) × List UInt8) → Receipt
  | [] => .returned true node
  | (clock, pch) :: chunks =>
      match node.ReceiveMsgBytes messageStart clock pch with
      | .returned true node => node.receiveChunks chunks
      | receipt => receipt

/-- The states the receiving part of a connection can be in: bytes come in, complete messages are
taken from the front (`main.cpp:5566-5648`), the version is set. -/
inductive Received : CNode → Prop where
  | fresh (nVersion : Int) : Received ⟨[], nVersion⟩
  | bytes {node node' : CNode} {clock : Nat → Int} {pch : List UInt8} (received : Received node)
      (accepted : node.ReceiveMsgBytes messageStart clock pch = .returned true node') :
      Received node'
  | processed {front back : List CNetMessage} {nRecvVersion : Int}
      (received : Received ⟨front ++ back, nRecvVersion⟩)
      (complete : ∀ msg ∈ front, msg.complete = true) : Received ⟨back, nRecvVersion⟩
  | version {node : CNode} (received : Received node) (nVersionIn : Int) :
      Received (node.SetRecvVersion nVersionIn)

end CNode

/-! ## The header -/

/-- The fields of a header. -/
def CMessageHeader.ofBytes (bytes : List UInt8) : CMessageHeader :=
  ⟨bytes.take 4, (bytes.drop 4).take 12, ofLittleEndian ((bytes.drop 16).take 4),
    ofLittleEndian ((bytes.drop 20).take 4)⟩

theorem unserialize_header {bytes : List UInt8} (full : bytes.length = 24) :
    CMessageHeader.unserialize bytes = some (CMessageHeader.ofBytes bytes, []) := by
  have start : takeBytes 4 bytes = some (bytes.take 4, bytes.drop 4) := if_pos (by omega)
  have command : takeBytes 12 (bytes.drop 4) =
      some ((bytes.drop 4).take 12, bytes.drop 16) := by
    unfold takeBytes
    rw [if_pos (by rw [length_drop]; omega), drop_drop]
  have size : readUnsigned 4 (bytes.drop 16) =
      some (ofLittleEndian ((bytes.drop 16).take 4), bytes.drop 20) := by
    unfold readUnsigned takeBytes
    rw [if_pos (by rw [length_drop]; omega), drop_drop]
    rfl
  have checksum : readUnsigned 4 (bytes.drop 20) =
      some (ofLittleEndian ((bytes.drop 20).take 4), []) := by
    unfold readUnsigned takeBytes
    rw [if_pos (by rw [length_drop]; omega), drop_drop,
      show bytes.drop (20 + 4) = [] from drop_of_length_le (by omega)]
    rfl
  simp only [CMessageHeader.unserialize, start, command, size, checksum, Option.bind_eq_bind,
    Option.bind_some]
  rfl

private theorem littleEndian_take_four {bytes : List UInt8} (long : 4 ≤ bytes.length) :
    littleEndian 4 (ofLittleEndian (bytes.take 4)) = bytes.take 4 := by
  have again := littleEndian_ofLittleEndian (bytes.take 4)
  rwa [length_take_of_le long] at again

theorem serialize_ofBytes {bytes : List UInt8} (full : bytes.length = 24) :
    (CMessageHeader.ofBytes bytes).serialize = bytes := by
  show bytes.take 4 ++ (bytes.drop 4).take 12 ++
    littleEndian 4 (ofLittleEndian ((bytes.drop 16).take 4)) ++
      littleEndian 4 (ofLittleEndian ((bytes.drop 20).take 4)) = bytes
  have first : bytes.take 4 ++ (bytes.drop 4).take 12 = bytes.take 16 := take_add.symm
  have second : bytes.take 16 ++ (bytes.drop 16).take 4 = bytes.take 20 := take_add.symm
  have third : bytes.take 20 ++ (bytes.drop 20).take 4 = bytes.take 24 := take_add.symm
  rw [littleEndian_take_four (by rw [length_drop]; omega),
    littleEndian_take_four (by rw [length_drop]; omega), first, second, third,
    take_of_length_le (by omega)]

/-- The frames of a connection. -/
def messageFormat : Framing.Format UInt8 CMessageHeader where
  headerSize := 24
  parse := CMessageHeader.ofBytes
  print := CMessageHeader.serialize
  bodySize := CMessageHeader.nMessageSize
  limit := MAX_PROTOCOL_MESSAGE_LENGTH
  headerSize_pos := by decide
  print_parse _ full := serialize_ofBytes full

/-! ## Messages and frames -/

open Framing

namespace CNetMessage

/-- A message but for the time of its receipt and for what is allocated ahead of the data. -/
def seen (msg : CNetMessage) : CNetMessage :=
  { msg with vRecv := msg.vRecv.take msg.nDataPos, nTime := 0 }

/-- The bytes of the stream that the message holds. -/
def wire (msg : CNetMessage) : List UInt8 :=
  if msg.nHdrPos < 24 then msg.hdrbuf.take msg.nHdrPos
  else msg.hdr.serialize ++ msg.vRecv.take msg.nDataPos

/-- What is allocated: the data, and zeros up to 256 KiB ahead within the message. -/
structure Allocated (msg : CNetMessage) : Prop where
  reached : msg.nDataPos ≤ msg.vRecv.length
  within : msg.vRecv.length ≤ if msg.in_data then msg.hdr.nMessageSize else 0
  ahead : msg.vRecv.length ≤ msg.nDataPos + 256 * 1024
  zeros : msg.vRecv.drop msg.nDataPos = List.replicate (msg.vRecv.length - msg.nDataPos) 0

/-- The 24 bytes of the header and a body as long as it says. -/
structure Entire (msg : CNetMessage) : Prop where
  header : msg.nHdrPos = 24 ∧ msg.hdr.serialize.length = 24
  body : msg.nDataPos = msg.hdr.nMessageSize ∧ msg.vRecv.length = msg.hdr.nMessageSize

/-- The message that a part of the stream fills. -/
def ofPart (messageStart : List UInt8) (nVersion : Int) : Part UInt8 CMessageHeader → CNetMessage
  | .header got => { new messageStart nVersion with
      hdrbuf := got ++ List.replicate (24 - got.length) 0, nHdrPos := got.length }
  | .body hdr got => ⟨true, [], hdr, 24, got, got.length, 0, nVersion⟩
  | .refused hdr => ⟨decide (hdr.nMessageSize ≤ MAX_SIZE), [], hdr, 24, [], 0, 0, nVersion⟩

variable (messageStart : List UInt8) (nVersion : Int)

theorem complete_seen (msg : CNetMessage) : msg.seen.complete = msg.complete := rfl

theorem ofPart_body_complete (hdr : CMessageHeader) (got : List UInt8) :
    (ofPart messageStart nVersion (.body hdr got)).complete = (hdr.nMessageSize == got.length) :=
  rfl

theorem new_seen : (new messageStart nVersion).seen = ofPart messageStart nVersion (.header []) :=
  rfl

theorem new_allocated : (new messageStart nVersion).Allocated := by
  constructor <;> simp [new]

variable {msg : CNetMessage} {got : List UInt8}

/-- Nothing was allocated before the header is there. -/
theorem eq_of_seen_header (front : msg.seen = ofPart messageStart nVersion (.header got))
    (allocated : msg.Allocated) :
    msg = { ofPart messageStart nVersion (.header got) with nTime := msg.nTime } := by
  obtain ⟨in_data, hdrbuf, hdr, nHdrPos, vRecv, nDataPos, nTime, nVersion'⟩ := msg
  simp only [seen, ofPart, new, mk.injEq] at front
  obtain ⟨rfl, rfl, rfl, rfl, -, rfl, -, rfl⟩ := front
  have none : vRecv = [] := length_eq_zero_iff.mp (Nat.le_zero.mp allocated.within)
  subst none
  rfl

theorem fields_of_seen_body {hdr : CMessageHeader}
    (front : msg.seen = ofPart messageStart nVersion (.body hdr got)) :
    msg.in_data = true ∧ msg.hdr = hdr ∧ msg.nDataPos = got.length ∧
      msg.vRecv.take got.length = got := by
  obtain ⟨in_data, hdrbuf, hdr', nHdrPos, vRecv, nDataPos, nTime, nVersion'⟩ := msg
  simp only [seen, ofPart, mk.injEq] at front
  obtain ⟨rfl, -, rfl, -, data, rfl, -, -⟩ := front
  exact ⟨rfl, rfl, rfl, data⟩

/-! ## The two readers -/

private theorem memcpy_header (got pch : List UInt8) (fits : got.length + pch.length ≤ 24) :
    memcpy (got ++ List.replicate (24 - got.length) 0) got.length pch pch.length =
      some ((got ++ pch) ++ List.replicate (24 - (got ++ pch).length) 0) := by
  have inside : got.length + pch.length ≤
      (got ++ List.replicate (24 - got.length) (0 : UInt8)).length ∧ pch.length ≤ pch.length := by
    rw [length_append, length_replicate]
    omega
  have rest : (got ++ List.replicate (24 - got.length) (0 : UInt8)).drop
      (got.length + pch.length) = List.replicate (24 - (got ++ pch).length) 0 := by
    rw [drop_append, drop_replicate, length_append, drop_of_length_le (by omega),
      nil_append]
    congr 1
    omega
  rw [memcpy, if_pos inside, rest, take_left, take_length]

theorem readHeader_short (got pch : List UInt8) (nTime : Int)
    (short : got.length + pch.length < 24) :
    readHeader { ofPart messageStart nVersion (.header got) with nTime := nTime } pch =
      some ({ ofPart messageStart nVersion (.header (got ++ pch)) with nTime := nTime },
        (pch.length : Int)) := by
  have copy := memcpy_header got pch (by omega)
  have most : min (24 - got.length) pch.length = pch.length := by omega
  have grown : (got ++ pch).length = got.length + pch.length := length_append
  simp only [readHeader, ofPart, most, copy, Option.bind_eq_bind, Option.bind_some, if_pos short,
    grown]

theorem readHeader_rest (got pch : List UInt8) (nTime : Int) (isOpen : got.length < 24)
    (long : 24 ≤ got.length + pch.length) :
    readHeader { ofPart messageStart nVersion (.header got) with nTime := nTime } pch =
      let hdr := CMessageHeader.ofBytes (got ++ pch.take (24 - got.length))
      if MAX_SIZE < hdr.nMessageSize then
        some ({ ofPart messageStart nVersion (.refused hdr) with nTime := nTime }, (-1 : Int))
      else some ({ ofPart messageStart nVersion (.body hdr []) with nTime := nTime },
        ((24 - got.length : Nat) : Int)) := by
  have most : min (24 - got.length) pch.length = 24 - got.length := by omega
  have taken : (pch.take (24 - got.length)).length = 24 - got.length :=
    length_take_of_le (by omega)
  have full : (got ++ pch.take (24 - got.length)).length = 24 := by
    rw [length_append, taken]
    omega
  have copy : memcpy (got ++ List.replicate (24 - got.length) 0) got.length pch
      (24 - got.length) = some (got ++ pch.take (24 - got.length)) := by
    have room : (got ++ List.replicate (24 - got.length) (0 : UInt8)).length = 24 := by
      rw [length_append, length_replicate]
      omega
    rw [memcpy, if_pos ⟨by omega, by omega⟩, take_left, drop_of_length_le (by omega),
      append_nil]
  have there : ¬got.length + (24 - got.length) < 24 := by omega
  simp only [readHeader, ofPart, most, copy, Option.bind_eq_bind, Option.bind_some, if_neg there,
    unserialize_header full]
  by_cases tooLong : MAX_SIZE <
      (CMessageHeader.ofBytes (got ++ pch.take (24 - got.length))).nMessageSize
  · rw [if_pos tooLong, if_pos tooLong, decide_eq_false (by omega)]
    have all : got.length + (24 - got.length) = 24 := by omega
    rw [all]
    rfl
  rw [if_neg tooLong, if_neg tooLong]
  have all : got.length + (24 - got.length) = 24 := by omega
  rw [all]
  rfl

theorem length_resize (buf : List UInt8) (n : Nat) : (resize buf n).length = n := by
  rw [resize, length_append, length_take, length_replicate]
  omega

/-- What `readData` makes of the stream's buffer before it copies. -/
private def grown (msg : CNetMessage) (nCopy : Nat) : List UInt8 :=
  if msg.vRecv.length < msg.nDataPos + nCopy then
    resize msg.vRecv (min msg.hdr.nMessageSize (msg.nDataPos + nCopy + 256 * 1024))
  else msg.vRecv

/-- It grows by zeros, as far as the data and at most to the end of the message. -/
private theorem grown_spec (allocated : msg.Allocated) (data : msg.in_data = true) {nCopy : Nat}
    (fits : msg.nDataPos + nCopy ≤ msg.hdr.nMessageSize) :
    msg.nDataPos + nCopy ≤ (grown msg nCopy).length ∧
      (grown msg nCopy).length ≤ msg.hdr.nMessageSize ∧
      (grown msg nCopy).length ≤ msg.nDataPos + nCopy + 256 * 1024 ∧
      grown msg nCopy =
        msg.vRecv.take msg.nDataPos ++
          List.replicate ((grown msg nCopy).length - msg.nDataPos) 0 := by
  have within := allocated.within
  have ahead := allocated.ahead
  have reached := allocated.reached
  rw [data, if_pos rfl] at within
  have zeros : msg.vRecv = msg.vRecv.take msg.nDataPos ++
      List.replicate (msg.vRecv.length - msg.nDataPos) 0 := by
    rw [← allocated.zeros, take_append_drop]
  unfold grown
  by_cases small : msg.vRecv.length < msg.nDataPos + nCopy
  · rw [if_pos small, length_resize]
    refine ⟨by omega, by omega, by omega, ?_⟩
    rw [resize, take_of_length_le (by omega)]
    conv_lhs => rw [zeros]
    rw [append_assoc, replicate_append_replicate]
    congr 2
    rw [length_append, length_take, length_replicate]
    omega
  · rw [if_neg small]
    exact ⟨by omega, within, by omega, zeros⟩

theorem readData_spec {hdr : CMessageHeader}
    (front : msg.seen = ofPart messageStart nVersion (.body hdr got)) (allocated : msg.Allocated)
    (pch : List UInt8) (isOpen : got.length < hdr.nMessageSize) :
    ∃ msg' : CNetMessage, readData msg pch =
        some (msg', ((min (hdr.nMessageSize - got.length) pch.length : Nat) : Int)) ∧
      msg'.seen = ofPart messageStart nVersion
        (.body hdr (got ++ pch.take (hdr.nMessageSize - got.length))) ∧ msg'.Allocated := by
  obtain ⟨data, rfl, pos, taken⟩ := fields_of_seen_body messageStart nVersion front
  obtain ⟨nCopy, most⟩ : ∃ nCopy, nCopy = min (msg.hdr.nMessageSize - got.length) pch.length :=
    ⟨_, rfl⟩
  have fits : msg.nDataPos + nCopy ≤ msg.hdr.nMessageSize := by omega
  obtain ⟨room, within, ahead, zeros⟩ := grown_spec allocated data fits
  have same : pch.take (msg.hdr.nMessageSize - got.length) = pch.take nCopy := by
    rw [most, take_eq_take_iff]
    omega
  have length : (pch.take nCopy).length = nCopy := length_take_of_le (by omega)
  have copy : memcpy (grown msg nCopy) msg.nDataPos pch nCopy =
      some ((got ++ pch.take nCopy) ++
        List.replicate ((grown msg nCopy).length - (msg.nDataPos + nCopy)) 0) := by
    rw [memcpy, if_pos ⟨room, by omega⟩]
    congr 2
    · rw [zeros, pos, taken, take_left' rfl]
    conv_lhs => rw [zeros, pos, taken]
    rw [drop_append, drop_of_length_le (by omega), nil_append, drop_replicate]
    congr 1
    omega
  have read : readData msg pch = some ({ msg with
      vRecv := (got ++ pch.take nCopy) ++
        List.replicate ((grown msg nCopy).length - (msg.nDataPos + nCopy)) 0,
      nDataPos := msg.nDataPos + nCopy }, (nCopy : Int)) := by
    simp only [readData]
    rw [pos, ← most]
    rw [pos] at copy
    have unfolded : grown msg nCopy =
        if msg.vRecv.length < got.length + nCopy then
          resize msg.vRecv (min msg.hdr.nMessageSize (got.length + nCopy + 256 * 1024))
        else msg.vRecv := by rw [grown, pos]
    rw [← unfolded, copy]
    rfl
  have count : (got ++ pch.take nCopy).length = msg.nDataPos + nCopy := by
    rw [length_append, length, pos]
  rw [← most, same]
  refine ⟨_, read, ?_, ?_⟩
  · have fields := front
    simp only [seen, ofPart, mk.injEq] at fields ⊢
    obtain ⟨in_data, hdrbuf, hdr, nHdrPos, -, -, -, version⟩ := fields
    refine ⟨in_data, hdrbuf, hdr, nHdrPos, ?_, ?_, trivial, version⟩
    · exact take_left' count
    · exact count.symm
  have all : ((got ++ pch.take nCopy) ++
      List.replicate ((grown msg nCopy).length - (msg.nDataPos + nCopy)) 0).length =
        (grown msg nCopy).length := by
    rw [length_append, count, length_replicate]
    omega
  refine ⟨?_, ?_, ?_, ?_⟩
  · exact Nat.le_trans room (Nat.le_of_eq all.symm)
  · show _ ≤ if msg.in_data then _ else _
    rw [all, data]
    exact within
  · exact Nat.le_trans (Nat.le_of_eq all) ahead
  · show List.drop (msg.nDataPos + nCopy) _ = List.replicate (_ - (msg.nDataPos + nCopy)) 0
    rw [drop_left' count, all]

private theorem length_memcpy {buf buf' pch : List UInt8} {pos n : Nat}
    (copy : memcpy buf pos pch n = some buf') : buf'.length = buf.length := by
  unfold memcpy at copy
  by_cases inside : pos + n ≤ buf.length ∧ n ≤ pch.length
  · rw [if_pos inside, Option.some.injEq] at copy
    rw [← copy, length_append, length_append, length_take, length_take,
      length_drop]
    omega
  · rw [if_neg inside] at copy
    cases copy

/-- How much is allocated depends on how much was copied at once. -/
theorem length_readData {msg' : CNetMessage} {pch : List UInt8} {handled : Int}
    (read : readData msg pch = some (msg', handled)) :
    msg'.vRecv.length =
      if msg.vRecv.length < msg.nDataPos + min (msg.hdr.nMessageSize - msg.nDataPos) pch.length then
        min msg.hdr.nMessageSize
          (msg.nDataPos + min (msg.hdr.nMessageSize - msg.nDataPos) pch.length + 256 * 1024)
      else msg.vRecv.length := by
  obtain ⟨vRecv, copy, same⟩ := Option.bind_eq_some_iff.mp read
  rw [Option.some.injEq, Prod.mk.injEq] at same
  rw [← same.1]
  rw [length_memcpy copy]
  split
  · exact length_resize _ _
  · rfl

end CNetMessage

end Esbcoin
