import Esbcoin.Net.ReceiveMsgBytes

namespace Esbcoin

open Bytes Framing CNetMessage CMessageHeader Reader List

/-! ## One turn of the loop -/

namespace CNode

variable (messageStart : List UInt8)

/-- The message in front if it has a byte. -/
def ofFront (nVersion : Int) (part : Part UInt8 CMessageHeader) : List CNetMessage :=
  if part = .header [] then [] else [ofPart messageStart nVersion part]

/-- The messages of a connection as the reader has them. -/
def ofReader (nVersion : Int) (reader : Reader UInt8 CMessageHeader) : List CNetMessage :=
  reader.done.map (fun message => ofPart messageStart nVersion
      (.body message.1 message.2)) ++ ofFront messageStart nVersion reader.part

/-- The node's messages are those of the frames, allocated as they should be. -/
structure Represents (node : CNode) (reader : Reader UInt8 CMessageHeader) : Prop where
  seen : node.vRecvMsg.map CNetMessage.seen = ofReader messageStart node.nRecvVersion reader
  allocated : ∀ msg ∈ node.vRecvMsg, msg.Allocated

variable {nVersion : Int} {part : Part UInt8 CMessageHeader} {msg msg' : CNetMessage}
  {done : List (CMessageHeader × List UInt8)} {node : CNode} {others : List CNetMessage}
  {hdr : CMessageHeader} {got pch : List UInt8} {reader : Reader UInt8 CMessageHeader}

theorem eq_of_mem_ofFront (member : msg ∈ ofFront messageStart nVersion part) :
    msg = ofPart messageStart nVersion part := by
  unfold ofFront at member
  by_cases empty : part = .header []
  · rw [if_pos empty] at member
    cases member
  · rw [if_neg empty] at member
    exact mem_singleton.mp member

theorem ofReader_done :
    ofReader messageStart nVersion ⟨done, .header []⟩ = done.map fun message =>
      ofPart messageStart nVersion (.body message.1 message.2) := append_nil _

theorem ofReader_part (some : part ≠ .header []) :
    ofReader messageStart nVersion ⟨done, part⟩ =
      ofReader messageStart nVersion ⟨done, .header []⟩ ++
        [ofPart messageStart nVersion part] := by
  rw [ofReader_done]
  exact congrArg (_ ++ ·) (if_neg some)

theorem complete_of_done (whole : ∀ message ∈ done, Reader.Entire messageFormat message)
    (member : msg.seen ∈ ofReader messageStart nVersion ⟨done, .header []⟩) :
    msg.complete = true := by
  rw [ofReader_done, mem_map] at member
  obtain ⟨⟨hdr, got⟩, member, same⟩ := member
  have full : got.length = hdr.nMessageSize := (whole _ member).body
  rw [← complete_seen, ← same, ofPart_body_complete, full]
  exact beq_self_eq_true _

theorem ofPart_not_complete (isOpen : Reader.PartOpen messageFormat part) :
    (ofPart messageStart nVersion part).complete = false := by
  cases part with
  | header got => rfl
  | body hdr got =>
    have short : got.length < hdr.nMessageSize := isOpen.2.1
    rw [ofPart_body_complete]
    exact beq_eq_false_iff_ne.mpr (by omega)
  | refused hdr =>
    have tooLong : MAX_PROTOCOL_MESSAGE_LENGTH < hdr.nMessageSize := isOpen
    by_cases small : hdr.nMessageSize ≤ MAX_SIZE
    · have some : hdr.nMessageSize ≠ 0 := by omega
      rw [ofPart, decide_eq_true small]
      exact beq_eq_false_iff_ne.mpr some
    · rw [ofPart, decide_eq_false small]
      rfl

/-- The message that the loop goes on with. -/
theorem current_spec (represents : Represents messageStart node ⟨done, part⟩)
    (whole : Reader.Whole messageFormat ⟨done, part⟩) :
    ∃ others msg, node.current messageStart = (others, msg) ∧
      Represents messageStart ⟨others, node.nRecvVersion⟩ ⟨done, .header []⟩ ∧
      msg.seen = ofPart messageStart node.nRecvVersion part ∧ msg.Allocated := by
  obtain ⟨vRecvMsg, nRecvVersion⟩ := node
  obtain ⟨seen, allocated⟩ := represents
  by_cases none : part = .header []
  · -- All messages are complete, so a new one is made.
    subst none
    refine ⟨vRecvMsg, CNetMessage.new messageStart nRecvVersion, ?_, ⟨seen, allocated⟩,
      new_seen messageStart nRecvVersion,
      new_allocated messageStart nRecvVersion⟩
    unfold current
    rcases eq_nil_or_concat vRecvMsg with rfl | ⟨front, back, rfl⟩
    · rfl
    have member : back.seen ∈ ofReader messageStart nRecvVersion ⟨done, .header []⟩ := by
      rw [← seen, concat_eq_append]
      exact mem_map_of_mem (mem_append_right _ (mem_singleton_self _))
    have complete : back.complete = true := complete_of_done messageStart whole.done member
    simp only [concat_eq_append, List.getLast?_concat, complete, if_true]
  · rw [ofReader_part messageStart none] at seen
    obtain ⟨others, last, rfl, seenOthers, seenLast⟩ := map_eq_append_iff.mp seen
    obtain ⟨back, rfl, seenBack⟩ := map_eq_singleton_iff.mp seenLast
    have incomplete : back.complete = false := by
      rw [← complete_seen, seenBack]
      exact ofPart_not_complete messageStart whole.part
    refine ⟨others, back, ?_, ⟨seenOthers, ?_⟩, seenBack, ?_⟩
    · simp only [current, List.getLast?_concat, incomplete, Bool.false_eq_true, if_false,
        dropLast_concat]
    · exact fun msg member => allocated msg (mem_append_left _ member)
    · exact allocated back (mem_append_right _ (mem_singleton_self _))

theorem Represents.concat
    (represents : Represents messageStart ⟨others, nVersion⟩ ⟨done, .header []⟩)
    (front : msg.seen = ofPart messageStart nVersion part) (allocated : msg.Allocated)
    (some : part ≠ .header []) :
    Represents messageStart ⟨others ++ [msg], nVersion⟩ ⟨done, part⟩ := by
  constructor
  · show (others ++ [msg]).map _ = _
    rw [ofReader_part messageStart some, map_append, represents.seen, map_singleton,
      front]
  intro msg' member
  rcases mem_append.mp member with before | new
  · exact represents.allocated msg' before
  · rw [mem_singleton.mp new]
    exact allocated

/-- A body as far as it is there, its message stamped when it is complete. -/
theorem Represents.filled
    (represents : Represents messageStart ⟨others, nVersion⟩ ⟨done, .header []⟩)
    (front : msg.seen = ofPart messageStart nVersion (.body hdr got))
    (allocated : msg.Allocated) (now : Int) :
    Represents messageStart
      ⟨others ++ [if msg.complete then { msg with nTime := now } else msg], nVersion⟩
      (Reader.filled messageFormat done hdr got) := by
  have stamped : (if msg.complete then { msg with nTime := now } else msg).seen =
      ofPart messageStart nVersion (.body hdr got) := by
    rw [← front]
    cases msg.complete <;> rfl
  have stillAllocated : (if msg.complete then { msg with nTime := now } else msg).Allocated := by
    cases msg.complete
    · exact allocated
    · exact ⟨allocated.reached, allocated.within, allocated.ahead, allocated.zeros⟩
  have both := represents.concat messageStart stamped stillAllocated nofun
  unfold Reader.filled
  by_cases full : got.length = messageFormat.bodySize hdr
  · rw [if_pos full]
    refine ⟨both.seen.trans ?_, both.allocated⟩
    have front : ofReader messageStart nVersion ⟨done, .body hdr got⟩ = _ :=
      ofReader_part messageStart nofun
    rw [front, ofReader_done, ofReader_done, map_append]
    rfl
  · rw [if_neg full]
    exact both

variable (clock : Nat → Int)

theorem receiveLoop_nil (fuel : Nat) (node : CNode) :
    receiveLoop messageStart clock fuel node [] = .returned true node := by
  cases fuel <;> rfl

/-- A turn whose call fails. -/
private theorem receiveLoop_fails (fuel : Nat) (some : 0 < pch.length) {handled : Int}
    (current : node.current messageStart = (others, msg))
    (read : (if !msg.in_data then msg.readHeader pch else msg.readData pch) =
      Option.some (msg', handled)) (fails : handled < 0 ∨ (msg'.in_data = true ∧
      MAX_PROTOCOL_MESSAGE_LENGTH < msg'.hdr.nMessageSize)) :
    receiveLoop messageStart clock (fuel + 1) node pch =
      .returned false ⟨others ++ [msg'], node.nRecvVersion⟩ := by
  rw [receiveLoop, if_pos some]
  simp only [current, read]
  by_cases negative : handled < 0
  · rw [if_pos negative]
  · rw [if_neg negative, if_pos (fails.resolve_left negative)]

/-- A turn that handles some bytes. -/
private theorem receiveLoop_goes_on (fuel : Nat) (some : 0 < pch.length) {n : Nat}
    (current : node.current messageStart = (others, msg))
    (read : (if !msg.in_data then msg.readHeader pch else msg.readData pch) =
      Option.some (msg', (n : Int)))
    (allowed : ¬(msg'.in_data = true ∧ MAX_PROTOCOL_MESSAGE_LENGTH < msg'.hdr.nMessageSize)) :
    receiveLoop messageStart clock (fuel + 1) node pch =
      receiveLoop messageStart clock fuel
        ⟨others ++ [if msg'.complete then { msg' with nTime := clock (pch.drop n).length }
          else msg'], node.nRecvVersion⟩ (pch.drop n) := by
  have handled : ¬(n : Int) < 0 := by omega
  rw [receiveLoop, if_pos some]
  simp only [current, read, if_neg handled, Int.toNat_natCast]
  rw [if_neg allowed]

/-- What a turn comes to: it handles some bytes as the frames do, and the loop goes on with the rest
unless the stream was refused. -/
def TurnRefines (clock : Nat → Int) (fuel : Nat) (node : CNode)
    (reader : Reader UInt8 CMessageHeader) (pch : List UInt8) (n : Nat) : Prop :=
  ∃ node' : CNode, Represents messageStart node' (reader.absorb messageFormat (pch.take n)) ∧
    node'.nRecvVersion = node.nRecvVersion ∧
    receiveLoop messageStart clock (fuel + 1) node pch =
      if (reader.absorb messageFormat (pch.take n)).isRefused then .returned false node'
      else receiveLoop messageStart clock fuel node' (pch.drop n)

private theorem turn_filled {clock : Nat → Int} {fuel : Nat} (some : 0 < pch.length) {n : Nat}
    (current : node.current messageStart = (others, msg))
    (represents : Represents messageStart ⟨others, node.nRecvVersion⟩ ⟨done, .header []⟩)
    (read : (if !msg.in_data then msg.readHeader pch else msg.readData pch) =
      Option.some (msg', (n : Int)))
    (front : msg'.seen = ofPart messageStart node.nRecvVersion (.body hdr got))
    (allocated : msg'.Allocated) (allowed : hdr.nMessageSize ≤ MAX_PROTOCOL_MESSAGE_LENGTH)
    (absorbed : reader.absorb messageFormat (pch.take n) = Reader.filled messageFormat done hdr got)
    : TurnRefines messageStart clock fuel node reader pch n := by
  have header : msg'.hdr = hdr :=
    (fields_of_seen_body messageStart node.nRecvVersion front).2.1
  have goesOn := receiveLoop_goes_on messageStart clock fuel some current read
    (fun tooLong => by have := header ▸ tooLong.2; omega)
  have accepted : (Reader.filled messageFormat done hdr got).isRefused = false := by
    unfold Reader.filled
    by_cases full : got.length = messageFormat.bodySize hdr
    · rw [if_pos full]
      rfl
    · rw [if_neg full]
      rfl
  unfold TurnRefines
  rw [absorbed, accepted]
  exact ⟨_, represents.filled messageStart front allocated _, rfl, goesOn⟩

private theorem ofPart_stamped_allocated
    (nothing : (ofPart messageStart nVersion part).vRecv = [])
    (start : (ofPart messageStart nVersion part).nDataPos = 0) (nTime : Int) :
    CNetMessage.Allocated
      { ofPart messageStart nVersion part with nTime := nTime } := by
  constructor <;> simp [nothing, start]

private theorem turn_header (fuel : Nat) (some : 0 < pch.length)
    (represents : Represents messageStart node ⟨done, .header got⟩)
    (whole : Reader.Whole messageFormat ⟨done, .header got⟩) :
    TurnRefines messageStart clock fuel node ⟨done, .header got⟩ pch
      (min (24 - got.length) pch.length) := by
  have isOpen : got.length < 24 := whole.part
  obtain ⟨others, msg, current, before, front, allocated⟩ :=
    current_spec messageStart represents whole
  have shape := eq_of_seen_header messageStart node.nRecvVersion front allocated
  have phase : msg.in_data = false := by rw [shape]; rfl
  have reads : (if !msg.in_data then msg.readHeader pch else msg.readData pch) =
      msg.readHeader pch := by rw [phase]; rfl
  by_cases short : got.length + pch.length < 24
  · -- The header stays incomplete.
    have most : min (24 - got.length) pch.length = pch.length := by omega
    have read := readHeader_short messageStart node.nRecvVersion got pch msg.nTime short
    rw [← shape, ← reads] at read
    have goesOn := receiveLoop_goes_on messageStart clock fuel some current
      read (fun tooLong => by cases tooLong.1)
    rw [most]
    unfold TurnRefines
    rw [take_length, absorb_header_short messageFormat done got pch short]
    have next : Represents messageStart
        ⟨others ++ [{ ofPart messageStart node.nRecvVersion (.header (got ++ pch)) with
          nTime := msg.nTime }], node.nRecvVersion⟩ ⟨done, .header (got ++ pch)⟩ := by
      apply before.concat messageStart
      · rfl
      · exact ofPart_stamped_allocated messageStart rfl rfl msg.nTime
      intro empty
      have none : got ++ pch = [] := Part.header.inj empty
      have lengths := congrArg List.length none
      rw [length_append, length_nil] at lengths
      omega
    exact ⟨_, next, rfl, goesOn⟩
  · have most : min (24 - got.length) pch.length = 24 - got.length := by omega
    have taken : (pch.take (24 - got.length)).length = 24 - got.length :=
      length_take_of_le (by omega)
    have read := readHeader_rest messageStart node.nRecvVersion got pch msg.nTime
      isOpen (by omega)
    rw [← shape, ← reads] at read
    have absorbed := absorb_header_rest messageFormat done got
      (pch.take (24 - got.length)) isOpen (by
        rw [taken]
        show got.length + (24 - got.length) = 24
        omega)
    rw [most]
    obtain ⟨hdr, named⟩ : ∃ hdr, hdr = ofBytes
      (got ++ pch.take (24 - got.length)) := ⟨_, rfl⟩
    simp only [← named] at read
    rw [show messageFormat.parse (got ++ pch.take (24 - got.length)) = hdr from named.symm]
      at absorbed
    by_cases tooLong : MAX_PROTOCOL_MESSAGE_LENGTH < hdr.nMessageSize
    · -- The header announces too much, beyond `MAX_SIZE` or not.
      have refused : begun messageFormat done hdr = ⟨done, .refused hdr⟩ := if_pos tooLong
      obtain ⟨handled, refusedRead, fails⟩ : ∃ handled,
          (if !msg.in_data then msg.readHeader pch else msg.readData pch) = Option.some
            ({ ofPart messageStart node.nRecvVersion (.refused hdr) with
              nTime := msg.nTime }, handled) ∧
          (handled < 0 ∨ (decide (hdr.nMessageSize ≤ MAX_SIZE) = true ∧
            MAX_PROTOCOL_MESSAGE_LENGTH < hdr.nMessageSize)) := by
        by_cases beyond : MAX_SIZE < hdr.nMessageSize
        · rw [if_pos beyond] at read
          exact ⟨-1, read, .inl (by decide)⟩
        rw [if_neg beyond] at read
        have small : hdr.nMessageSize ≤ MAX_SIZE := by omega
        refine ⟨((24 - got.length : Nat) : Int), ?_, .inr ⟨decide_eq_true small, tooLong⟩⟩
        rw [read, ofPart, ofPart, decide_eq_true small]
        rfl
      have stops := receiveLoop_fails messageStart clock fuel some current
        refusedRead fails
      unfold TurnRefines
      rw [absorbed, refused]
      have next : Represents messageStart
          ⟨others ++ [{ ofPart messageStart node.nRecvVersion (.refused hdr) with
            nTime := msg.nTime }], node.nRecvVersion⟩ ⟨done, .refused hdr⟩ := by
        apply before.concat messageStart
        · rfl
        · exact ofPart_stamped_allocated messageStart rfl rfl msg.nTime
        · intro empty
          cases empty
      exact ⟨_, next, rfl, stops⟩
    · have within : ¬MAX_SIZE < hdr.nMessageSize := by
        have smaller : MAX_PROTOCOL_MESSAGE_LENGTH < MAX_SIZE := by decide
        omega
      rw [if_neg within] at read
      have allowed : hdr.nMessageSize ≤ MAX_PROTOCOL_MESSAGE_LENGTH := by omega
      refine turn_filled messageStart some current before read rfl ?_ allowed
        (absorbed.trans (if_neg tooLong))
      exact ofPart_stamped_allocated messageStart rfl rfl msg.nTime

private theorem turn_body (fuel : Nat) (some : 0 < pch.length)
    (represents : Represents messageStart node ⟨done, .body hdr got⟩)
    (whole : Reader.Whole messageFormat ⟨done, .body hdr got⟩) :
    TurnRefines messageStart clock fuel node ⟨done, .body hdr got⟩ pch
      (min (hdr.nMessageSize - got.length) pch.length) := by
  obtain ⟨-, isOpen, allowed⟩ := whole.part
  obtain ⟨others, msg, current, before, front, allocated⟩ :=
    current_spec messageStart represents whole
  have phase := (fields_of_seen_body messageStart node.nRecvVersion front).1
  have reads : (if !msg.in_data then msg.readHeader pch else msg.readData pch) =
      msg.readData pch := by rw [phase]; rfl
  obtain ⟨msg', read, front', allocated'⟩ :=
    readData_spec messageStart node.nRecvVersion front allocated pch isOpen
  rw [← reads] at read
  have same : pch.take (min (hdr.nMessageSize - got.length) pch.length) =
      pch.take (hdr.nMessageSize - got.length) := by
    rw [take_eq_take_iff]
    omega
  refine turn_filled messageStart some current before read front' allocated' allowed ?_
  rw [same]
  apply absorb_body messageFormat done hdr got _ isOpen
  rw [length_take]
  show _ ≤ hdr.nMessageSize
  have short : got.length < hdr.nMessageSize := isOpen
  omega

theorem turn_refines (fuel : Nat) (some : 0 < pch.length)
    (represents : Represents messageStart node reader) (whole : Reader.Whole messageFormat reader)
    (accepted : reader.isRefused = false) :
    ∃ n, 0 < n ∧ n ≤ pch.length ∧ TurnRefines messageStart clock fuel node reader pch n := by
  obtain ⟨done, part⟩ := reader
  cases part with
  | header got =>
    have isOpen : got.length < 24 := whole.part
    exact ⟨_, by omega, by omega, turn_header messageStart clock fuel some represents whole⟩
  | body hdr got =>
    have isOpen : got.length < hdr.nMessageSize := whole.part.2.1
    exact ⟨_, by omega, by omega, turn_body messageStart clock fuel some represents whole⟩
  | refused hdr => cases accepted

/-! ## Calls -/

/-- The loop does with the bytes what the frames do, and it ends. -/
theorem receiveLoop_refines (fuel : Nat) (enough : pch.length ≤ fuel)
    (represents : Represents messageStart node reader) (whole : Reader.Whole messageFormat reader)
    (accepted : reader.isRefused = false) :
    ∃ node' : CNode, receiveLoop messageStart clock fuel node pch =
        .returned (!(reader.absorb messageFormat pch).isRefused) node' ∧
      Represents messageStart node' (reader.absorb messageFormat pch) ∧
      node'.nRecvVersion = node.nRecvVersion := by
  induction fuel generalizing node reader pch with
  | zero =>
    have none : pch = [] := length_eq_zero_iff.mp (by omega)
    subst none
    refine ⟨node, ?_, represents, rfl⟩
    show _ = Receipt.returned (!reader.isRefused) node
    rw [accepted]
    rfl
  | succ fuel ih =>
    by_cases some : 0 < pch.length
    · obtain ⟨n, pos, fits, node', after, version, turn⟩ :=
        turn_refines messageStart clock fuel some represents whole accepted
      have split : reader.absorb messageFormat pch =
          (reader.absorb messageFormat (pch.take n)).absorb messageFormat (pch.drop n) := by
        rw [← absorb_append, take_append_drop]
      rw [turn, split]
      cases refused : (reader.absorb messageFormat (pch.take n)).isRefused with
      | true =>
        rw [absorb_refused messageFormat refused, refused]
        exact ⟨node', rfl, after, version⟩
      | false =>
        obtain ⟨node'', rest, after', version'⟩ := ih
          (show (pch.drop n).length ≤ fuel by rw [length_drop]; omega) after
          (whole.absorb messageFormat _) refused
        exact ⟨node'', rest, after', version'.trans version⟩
    · have none : pch = [] := length_eq_zero_iff.mp (by omega)
      subst none
      refine ⟨node, ?_, represents, rfl⟩
      show _ = Receipt.returned (!reader.isRefused) node
      rw [accepted]
      rfl

theorem receiveMsgBytes_refines (pch : List UInt8)
    (represents : Represents messageStart node reader) (whole : Reader.Whole messageFormat reader)
    (accepted : reader.isRefused = false) :
    ∃ node' : CNode, node.ReceiveMsgBytes messageStart clock pch =
        .returned (!(reader.absorb messageFormat pch).isRefused) node' ∧
      Represents messageStart node' (reader.absorb messageFormat pch) ∧
      node'.nRecvVersion = node.nRecvVersion :=
  receiveLoop_refines messageStart clock pch.length (Nat.le_refl _) represents whole accepted

/-- Nor does it matter to the calls how the bytes are cut. -/
theorem receiveChunks_refines (chunks : List ((Nat → Int) × List UInt8))
    (represents : Represents messageStart node reader) (whole : Reader.Whole messageFormat reader)
    (accepted : reader.isRefused = false) :
    ∃ node' : CNode, node.receiveChunks messageStart chunks =
        .returned (!(reader.absorb messageFormat (chunks.map Prod.snd).flatten).isRefused) node' ∧
      Represents messageStart node'
        (reader.absorb messageFormat (chunks.map Prod.snd).flatten) ∧
      node'.nRecvVersion = node.nRecvVersion := by
  induction chunks generalizing node reader with
  | nil =>
    refine ⟨node, ?_, represents, rfl⟩
    show Receipt.returned true node = Receipt.returned (!reader.isRefused) node
    rw [accepted]
    rfl
  | cons chunk chunks ih =>
    obtain ⟨clock, pch⟩ := chunk
    obtain ⟨node', call, after, version⟩ :=
      receiveMsgBytes_refines messageStart clock pch represents whole accepted
    rw [map_cons, flatten_cons, absorb_append]
    unfold receiveChunks
    rw [call]
    cases refused : (reader.absorb messageFormat pch).isRefused with
    | true =>
      rw [absorb_refused messageFormat refused, refused]
      exact ⟨node', rfl, after, version⟩
    | false =>
      obtain ⟨node'', rest, after', version'⟩ :=
        ih after (whole.absorb messageFormat _) refused
      exact ⟨node'', rest, after', version'.trans version⟩

/-- What is left of a connection's messages when the first ones are taken off. -/
private theorem represents_processed {front back : List CNetMessage} {nRecvVersion : Int}
    (represents : Represents messageStart ⟨front ++ back, nRecvVersion⟩ reader)
    (whole : Reader.Whole messageFormat reader) (complete : ∀ msg ∈ front, msg.complete = true) :
    ∃ done, Represents messageStart ⟨back, nRecvVersion⟩ ⟨done, reader.part⟩ ∧
      ∀ message ∈ done, message ∈ reader.done := by
  obtain ⟨done, part⟩ := reader
  have allocated : ∀ msg ∈ back, msg.Allocated := fun msg member =>
    represents.allocated msg (mem_append_right _ member)
  have seen := represents.seen
  rw [map_append] at seen
  rcases append_eq_append_iff.mp seen with ⟨rest, doneEq, backEq⟩ | ⟨rest, frontEq, partEq⟩
  · obtain ⟨first, last, rfl, -, lastEq⟩ := map_eq_append_iff.mp doneEq
    refine ⟨last, ⟨?_, allocated⟩, fun message member => mem_append_right _ member⟩
    rw [backEq, ← lastEq]
    rfl
  -- The message in front is not complete, so none of it was taken off.
  have none : rest = [] := by
    rcases eq_nil_or_concat rest with empty | ⟨init, last, rfl⟩
    · exact empty
    have taken : last ∈ front.map CNetMessage.seen := by
      rw [frontEq, concat_eq_append]
      exact mem_append_right _ (mem_append_right _ (mem_singleton_self _))
    obtain ⟨msg, member, rfl⟩ := mem_map.mp taken
    have same : msg.seen = ofPart messageStart nRecvVersion part := by
      apply eq_of_mem_ofFront messageStart
      rw [show ofFront messageStart nRecvVersion part = _ from partEq, concat_eq_append]
      exact mem_append_left _ (mem_append_right _ (mem_singleton_self _))
    have isComplete := complete msg member
    rw [← complete_seen, same, ofPart_not_complete messageStart whole.part]
      at isComplete
    cases isComplete
  subst none
  refine ⟨[], ⟨?_, allocated⟩, nofun⟩
  exact partEq.symm

/-- A connection's messages are those of some frames that were not refused. -/
theorem Received.represents (received : Received messageStart node) :
    ∃ reader, Represents messageStart node reader ∧ Reader.Whole messageFormat reader ∧
      reader.isRefused = false := by
  induction received with
  | fresh nVersion => exact ⟨⟨[], .header []⟩, ⟨rfl, nofun⟩, ⟨nofun, messageFormat.headerSize_pos⟩, rfl⟩
  | @bytes node node' clock pch received call ih =>
    obtain ⟨reader, represents, whole, accepted⟩ := ih
    obtain ⟨after, returns, represents', -⟩ :=
      receiveMsgBytes_refines messageStart clock pch represents whole accepted
    rw [call, Receipt.returned.injEq] at returns
    obtain ⟨verdict, rfl⟩ := returns
    refine ⟨_, represents', whole.absorb messageFormat pch, ?_⟩
    rw [← Bool.not_eq_true', ← verdict]
  | processed received complete ih =>
    obtain ⟨reader, represents, whole, accepted⟩ := ih
    obtain ⟨done, represents', fewer⟩ := represents_processed messageStart represents whole complete
    refine ⟨_, represents', ⟨fun message member => whole.done message (fewer message member),
      whole.part⟩, ?_⟩
    exact accepted
  | @version node received nVersionIn ih =>
    obtain ⟨reader, represents, whole, accepted⟩ := ih
    refine ⟨reader, ⟨?_, ?_⟩, whole, accepted⟩
    · have moved : (node.vRecvMsg.map fun msg => msg.SetVersion nVersionIn).map CNetMessage.seen =
          (node.vRecvMsg.map CNetMessage.seen).map fun msg => msg.SetVersion nVersionIn := by
        rw [map_map, map_map]
        rfl
      show (node.vRecvMsg.map fun msg => msg.SetVersion nVersionIn).map CNetMessage.seen = _
      rw [moved, represents.seen]
      obtain ⟨done, part⟩ := reader
      unfold ofReader
      rw [map_append, map_map]
      congr 1
      rw [ofFront, ofFront]
      split
      · rfl
      · cases part <;> rfl
    · intro msg member
      obtain ⟨msg', member', rfl⟩ := mem_map.mp member
      have allocated := represents.allocated msg' member'
      exact ⟨allocated.reached, allocated.within, allocated.ahead, allocated.zeros⟩

/-- The bytes of the stream that the node's messages hold. -/
def wire (node : CNode) : List UInt8 := node.vRecvMsg.flatMap CNetMessage.wire

theorem wire_ofPart (isOpen : Reader.PartOpen messageFormat part) :
    (ofPart messageStart nVersion part).wire = partBytes messageFormat part := by
  cases part with
  | header got =>
    have short : got.length < 24 := isOpen
    exact (if_pos short).trans take_left
  | body hdr got => exact congrArg (hdr.serialize ++ ·) take_length
  | refused hdr => exact append_nil _

theorem Represents.wire (represents : Represents messageStart node reader)
    (whole : Reader.Whole messageFormat reader) : node.wire = reader.wire messageFormat := by
  have same : ∀ msg : CNetMessage, msg.seen.wire = msg.wire := by
    intro msg
    simp only [CNetMessage.wire, CNetMessage.seen, take_take, Nat.min_self]
  have onSeen : node.wire = (node.vRecvMsg.map CNetMessage.seen).flatMap CNetMessage.wire := by
    rw [flatMap_map]
    exact congrArg (node.vRecvMsg.flatMap ·) (funext fun msg => (same msg).symm)
  rw [onSeen, represents.seen]
  obtain ⟨done, part⟩ := reader
  unfold ofReader Reader.wire
  rw [flatMap_append, flatMap_map]
  congr 1
  · exact congrArg (done.flatMap ·) (funext fun message =>
      congrArg (message.1.serialize ++ ·) take_length)
  rw [ofFront]
  split
  · rename_i empty
    rw [show part = .header [] from empty]
    rfl
  · rw [flatMap_singleton]
    exact wire_ofPart messageStart whole.part

/-- A complete message is one of the frames that are done. -/
theorem Represents.entire (represents : Represents messageStart node reader)
    (whole : Reader.Whole messageFormat reader) (member : msg ∈ node.vRecvMsg)
    (complete : msg.complete = true) : msg.Entire := by
  have allocated := represents.allocated msg member
  have listed : msg.seen ∈ ofReader messageStart node.nRecvVersion reader :=
    represents.seen ▸ mem_map_of_mem member
  obtain ⟨done, part⟩ := reader
  have notPart : msg.seen ≠ ofPart messageStart node.nRecvVersion part := by
    intro same
    rw [← complete_seen, same, ofPart_not_complete messageStart whole.part] at complete
    cases complete
  have ofDone : msg.seen ∈ done.map fun message => ofPart messageStart
      node.nRecvVersion (.body message.1 message.2) := by
    rcases mem_append.mp listed with before | front
    · exact before
    · exact absurd (eq_of_mem_ofFront messageStart front) notPart
  obtain ⟨⟨hdr, got⟩, memberDone, same⟩ := mem_map.mp ofDone
  obtain ⟨data, rfl, pos, -⟩ :=
    fields_of_seen_body messageStart node.nRecvVersion same.symm
  have reachedEnd : msg.nDataPos = got.length := pos
  have entire := whole.done _ memberDone
  have full : got.length = msg.hdr.nMessageSize := entire.body
  have within := allocated.within
  have reached := allocated.reached
  rw [data, if_pos rfl] at within
  have headerPos : msg.seen.nHdrPos = 24 := by
    rw [← same]
    rfl
  exact ⟨⟨headerPos, entire.header⟩, by omega, by omega⟩

/-- However the bytes of a peer are cut, every call ends with the same verdict and the same
messages, but for what is allocated ahead and the times of receipt. -/
theorem bytes_received_alike {node : CNode} (received : Received messageStart node)
    (clock : Nat → Int) (chunks : List ((Nat → Int) × List UInt8)) :
    ∃ (accepted : Bool) (atOnce inParts : CNode),
      node.ReceiveMsgBytes messageStart clock (chunks.map Prod.snd).flatten =
        .returned accepted atOnce ∧
      node.receiveChunks messageStart chunks = .returned accepted inParts ∧
      inParts.vRecvMsg.map CNetMessage.seen = atOnce.vRecvMsg.map CNetMessage.seen ∧
      inParts.nRecvVersion = atOnce.nRecvVersion ∧
      (∀ msg ∈ inParts.vRecvMsg, msg.Allocated ∧ (msg.complete = true → msg.Entire)) ∧
      ∃ taken rest, (chunks.map Prod.snd).flatten = taken ++ rest ∧
        inParts.wire = node.wire ++ taken ∧ (accepted = true → rest = []) := by
  obtain ⟨reader, represents, whole, open'⟩ := received.represents messageStart
  obtain ⟨atOnce, call, representsAtOnce, version⟩ := receiveMsgBytes_refines messageStart clock
    (chunks.map Prod.snd).flatten represents whole open'
  obtain ⟨inParts, calls, representsInParts, version'⟩ :=
    receiveChunks_refines messageStart chunks represents whole open'
  have wholeAfter := whole.absorb messageFormat (chunks.map Prod.snd).flatten
  obtain ⟨taken, rest, split, read, all⟩ :=
    wire_absorb messageFormat whole open' (chunks.map Prod.snd).flatten
  refine ⟨_, atOnce, inParts, call, calls, ?_, version'.trans version.symm, ?_, taken, rest, split,
    ?_, ?_⟩
  · rw [representsInParts.seen, representsAtOnce.seen, version, version']
  · intro msg member
    exact ⟨representsInParts.allocated msg member,
      representsInParts.entire messageStart wholeAfter member⟩
  · rw [representsInParts.wire messageStart wholeAfter, read, represents.wire messageStart whole]
  · intro accepted
    exact all (by rw [← Bool.not_eq_true', accepted])

/-- The message start of the main network (`chainparams.cpp:100-103`). -/
def mainMessageStart : List UInt8 := [0x65, 0x42, 0x65, 0x74]

/-- A header that announces a body of 300000 bytes, and one that announces none. -/
def longHeader : List UInt8 :=
  mainMessageStart ++ List.replicate 12 0x61 ++ [0xe0, 0x93, 0x04, 0x00] ++ [1, 2, 3, 4]

def emptyHeader : List UInt8 :=
  mainMessageStart ++ List.replicate 12 0x62 ++ [0, 0, 0, 0] ++ [0x5d, 0xf6, 0xe0, 0xe2]

/-- A message without a body and the start of another, cut within both headers. -/
theorem bytes_received_alike_sample : ∃ (accepted : Bool) (atOnce inParts : CNode),
    (⟨[], 209⟩ : CNode).ReceiveMsgBytes mainMessageStart (fun _ => 7)
      (emptyHeader ++ longHeader.take 9) = .returned accepted atOnce ∧
    (⟨[], 209⟩ : CNode).receiveChunks mainMessageStart
      [(fun _ => 5, emptyHeader.take 10), (fun _ => 6, emptyHeader.drop 10 ++ longHeader.take 4),
        (fun _ => 7, (longHeader.take 9).drop 4)] = .returned accepted inParts ∧
    inParts.vRecvMsg.map CNetMessage.seen = atOnce.vRecvMsg.map CNetMessage.seen := by
  obtain ⟨accepted, atOnce, inParts, call, calls, same, -⟩ :=
    bytes_received_alike mainMessageStart (Received.fresh 209) (fun _ => 7)
      [(fun _ => 5, emptyHeader.take 10), (fun _ => 6, emptyHeader.drop 10 ++ longHeader.take 4),
        (fun _ => 7, (longHeader.take 9).drop 4)]
  exact ⟨accepted, atOnce, inParts, call, calls, same⟩

private theorem receiveLoop_header (fuel : Nat) {header body : List UInt8}
    (full : header.length = 24) (some : 0 < (ofBytes header).nMessageSize)
    (allowed : (ofBytes header).nMessageSize ≤ MAX_PROTOCOL_MESSAGE_LENGTH) :
    receiveLoop messageStart clock (fuel + 1) ⟨[], nVersion⟩ (header ++ body) =
      receiveLoop messageStart clock fuel ⟨[ofPart messageStart nVersion
        (.body (ofBytes header) [])], nVersion⟩ body := by
  have long : (header ++ body).length = 24 + body.length := by rw [length_append, full]
  have smaller : MAX_PROTOCOL_MESSAGE_LENGTH < MAX_SIZE := by decide
  have current : (⟨[], nVersion⟩ : CNode).current messageStart =
      ([], CNetMessage.new messageStart nVersion) := rfl
  have read : (CNetMessage.new messageStart nVersion).readHeader (header ++ body) =
      Option.some (ofPart messageStart nVersion
        (.body (ofBytes header) []), (24 : Int)) := by
    have rest := readHeader_rest messageStart nVersion [] (header ++ body) 0
      (by decide) (by rw [long]; exact Nat.le_trans (Nat.le_add_right 24 _) (Nat.le_add_left _ _))
    rw [nil_append, show 24 - ([] : List UInt8).length = header.length from full.symm,
      take_left] at rest
    have within : ¬MAX_SIZE < (ofBytes header).nMessageSize := by omega
    simp only [if_neg within, full] at rest
    exact rest
  have within : ¬MAX_PROTOCOL_MESSAGE_LENGTH < (ofBytes header).nMessageSize := by
    omega
  have goesOn := receiveLoop_goes_on messageStart clock fuel (n := 24)
    (by omega) current read fun tooLong => within tooLong.2
  have incomplete : (ofPart messageStart nVersion
      (.body (ofBytes header) [])).complete = false :=
    beq_eq_false_iff_ne.mpr (Nat.ne_of_gt some)
  rw [goesOn, incomplete, drop_left' full]
  rfl

/-- A call that brings some of an open body and not its end. -/
private theorem receiveLoop_body (fuel : Nat) (pch : List UInt8) (some : 0 < pch.length)
    (front : msg.seen = ofPart messageStart nVersion (.body hdr got))
    (allocated : msg.Allocated) (allowed : hdr.nMessageSize ≤ MAX_PROTOCOL_MESSAGE_LENGTH)
    (isOpen : got.length + pch.length < hdr.nMessageSize) :
    ∃ msg' : CNetMessage, receiveLoop messageStart clock (fuel + 1) ⟨[msg], nVersion⟩ pch =
        .returned true ⟨[msg'], nVersion⟩ ∧
      msg'.seen = ofPart messageStart nVersion (.body hdr (got ++ pch)) ∧
      msg'.Allocated ∧
      msg'.vRecv.length = if msg.vRecv.length < got.length + pch.length then
        min hdr.nMessageSize (got.length + pch.length + 256 * 1024) else msg.vRecv.length := by
  obtain ⟨data, rfl, pos, -⟩ := fields_of_seen_body messageStart nVersion front
  have incomplete : ∀ (msg' : CNetMessage) (got' : List UInt8),
      msg'.seen = ofPart messageStart nVersion (.body msg.hdr got') →
      got'.length < msg.hdr.nMessageSize → msg'.complete = false := by
    intro msg' got' front' short
    rw [← complete_seen, front', ofPart_body_complete]
    exact beq_eq_false_iff_ne.mpr (by omega)
  have current : (⟨[msg], nVersion⟩ : CNode).current messageStart = ([], msg) := by
    show (if msg.complete then _ else _) = _
    rw [incomplete msg got front (by omega)]
    rfl
  obtain ⟨msg', read, front', allocated'⟩ :=
    readData_spec messageStart nVersion front allocated pch (by omega)
  have length := length_readData read
  have most : min (msg.hdr.nMessageSize - got.length) pch.length = pch.length := by omega
  rw [pos, most] at length
  rw [most] at read
  rw [take_of_length_le (by omega)] at front'
  have header := (fields_of_seen_body messageStart nVersion front').2.1
  have goesOn := receiveLoop_goes_on messageStart clock fuel some current
    (by rw [data]; exact read) (fun tooLong => by have := header ▸ tooLong.2; omega)
  have still := incomplete msg' (got ++ pch) front' (by rw [length_append]; exact isOpen)
  refine ⟨msg', ?_, front', allocated', length⟩
  rw [goesOn, still, drop_length, receiveLoop_nil]
  rfl

/-- A call that accepts its bytes goes over to the next one. -/
private theorem receiveChunks_cons {node' : CNode} {clock : Nat → Int}
    (chunks : List ((Nat → Int) × List UInt8))
    (accepted : node.ReceiveMsgBytes messageStart clock pch = .returned true node') :
    node.receiveChunks messageStart ((clock, pch) :: chunks) =
      node'.receiveChunks messageStart chunks := by
  rw [receiveChunks, accepted]

/-- Where the cut falls in the body shows in what is allocated for the incomplete message, and so in
what the socket loop reads off as the size of what was received. -/
theorem allocation_depends_on_cut : ∃ atOnce inParts : CNode,
    Received mainMessageStart ⟨[], 209⟩ ∧
    (⟨[], 209⟩ : CNode).ReceiveMsgBytes mainMessageStart (fun _ => 7) (longHeader ++ [1, 2]) =
      .returned true atOnce ∧
    (⟨[], 209⟩ : CNode).receiveChunks mainMessageStart
      [(fun _ => 7, longHeader ++ [1]), (fun _ => 7, [2])] = .returned true inParts ∧
    atOnce.vRecvMsg.map (fun msg => { msg with nTime := 0 }) ≠
      inParts.vRecvMsg.map (fun msg => { msg with nTime := 0 }) ∧
    atOnce.GetTotalRecvSize = 262170 ∧ inParts.GetTotalRecvSize = 262169 := by
  obtain ⟨hdr, named⟩ : ∃ hdr, hdr = ofBytes longHeader := ⟨_, rfl⟩
  obtain ⟨msg, shape⟩ : ∃ msg, msg = ofPart mainMessageStart 209 (.body hdr []) :=
    ⟨_, rfl⟩
  have size : hdr.nMessageSize = 300000 := by
    rw [named]
    decide
  have front : msg.seen = ofPart mainMessageStart 209 (.body hdr []) := by
    rw [shape]
    rfl
  have allocated : msg.Allocated := by
    rw [shape]
    constructor <;> simp [ofPart]
  have none : msg.vRecv.length = 0 := by
    rw [shape]
    rfl
  have allowed : hdr.nMessageSize ≤ MAX_PROTOCOL_MESSAGE_LENGTH := by
    rw [size]
    decide
  have first : ∀ (fuel : Nat) (body : List UInt8),
      receiveLoop mainMessageStart (fun _ => 7) (fuel + 1) ⟨[], 209⟩ (longHeader ++ body) =
        receiveLoop mainMessageStart (fun _ => 7) fuel ⟨[msg], 209⟩ body := by
    intro fuel body
    rw [shape, named]
    rw [named] at size allowed
    exact receiveLoop_header mainMessageStart _ fuel (by decide) (by rw [size]; decide) allowed
  obtain ⟨atOnce, callAtOnce, -, -, lengthAtOnce⟩ := receiveLoop_body mainMessageStart
    (fun _ => 7) 24 [1, 2] (by decide) front allocated allowed (by rw [size]; decide)
  obtain ⟨half, callHalf, frontHalf, allocatedHalf, lengthHalf⟩ := receiveLoop_body
    mainMessageStart (fun _ => 7) 23 [1] (by decide) front allocated allowed
      (by rw [size]; decide)
  obtain ⟨inParts, callInParts, -, -, lengthInParts⟩ := receiveLoop_body mainMessageStart
    (fun _ => 7) 0 [2] (by decide) frontHalf allocatedHalf allowed (by rw [size]; decide)
  rw [none, size] at lengthAtOnce lengthHalf
  rw [lengthHalf] at lengthInParts
  have sizeAtOnce : atOnce.vRecv.length = 262146 := lengthAtOnce
  have sizeInParts : inParts.vRecv.length = 262145 := lengthInParts
  refine ⟨⟨[atOnce], 209⟩, ⟨[inParts], 209⟩, .fresh 209, (first 25 [1, 2]).trans callAtOnce, ?_, ?_,
    ?_, ?_⟩
  · have one : (⟨[], 209⟩ : CNode).ReceiveMsgBytes mainMessageStart (fun _ => 7)
        (longHeader ++ [1]) = .returned true ⟨[half], 209⟩ := (first 24 [1]).trans callHalf
    have two : (⟨[half], 209⟩ : CNode).ReceiveMsgBytes mainMessageStart (fun _ => 7) [2] =
        .returned true ⟨[inParts], 209⟩ := callInParts
    rw [receiveChunks_cons mainMessageStart _ one, receiveChunks_cons mainMessageStart _ two]
    rfl
  · intro same
    have lengths := congrArg (List.map fun msg : CNetMessage => msg.vRecv.length) same
    simp only [map_cons, map_nil, sizeAtOnce, sizeInParts, List.cons.injEq] at lengths
    omega
  · show (atOnce.vRecv.length + 24) + 0 = _
    rw [sizeAtOnce]
  · show (inParts.vRecv.length + 24) + 0 = _
    rw [sizeInParts]

end CNode

end Esbcoin
