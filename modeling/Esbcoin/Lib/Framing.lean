import Mathlib.Data.List.Basic

/-!
# Frames with their length in front

A stream of messages, each a header of fixed length and a body as long as the header says. `absorb`
takes one element of the stream after the other, so where the stream is cut does not matter to it;
the lemmas of the second part say what it makes of as many elements as a header or a body still
wants, for readers that take them at once.
-/

namespace Framing

universe u v

/-- How a header is laid out, how long a body it announces, and the longest body allowed. -/
structure Format (β : Type u) (H : Type v) where
  headerSize : Nat
  parse : List β → H
  print : H → List β
  bodySize : H → Nat
  limit : Nat
  headerSize_pos : 0 < headerSize
  print_parse : ∀ bytes, bytes.length = headerSize → print (parse bytes) = bytes

/-- The message that is being read, or the header at which the stream was refused. -/
inductive Part (β : Type u) (H : Type v) where
  | header (got : List β)
  | body (hdr : H) (got : List β)
  | refused (hdr : H)
  deriving DecidableEq

/-- The messages read so far and the one in front. -/
structure Reader (β : Type u) (H : Type v) where
  done : List (H × List β)
  part : Part β H

variable {β : Type u} {H : Type v} (format : Format β H)

namespace Reader

/-- The body of a message as far as it is there. -/
def filled (done : List (H × List β)) (hdr : H) (got : List β) : Reader β H :=
  if got.length = format.bodySize hdr then ⟨done ++ [(hdr, got)], .header []⟩
  else ⟨done, .body hdr got⟩

/-- The header is there. -/
def begun (done : List (H × List β)) (hdr : H) : Reader β H :=
  if format.limit < format.bodySize hdr then ⟨done, .refused hdr⟩ else filled format done hdr []

/-- The reader behind one more element. -/
def absorbOne (reader : Reader β H) (b : β) : Reader β H :=
  match reader.part with
  | .header got =>
      if got.length + 1 < format.headerSize then ⟨reader.done, .header (got ++ [b])⟩
      else begun format reader.done (format.parse (got ++ [b]))
  | .body hdr got => filled format reader.done hdr (got ++ [b])
  | .refused _ => reader

/-- The reader behind more elements. -/
def absorb (reader : Reader β H) (bytes : List β) : Reader β H :=
  bytes.foldl (absorbOne format) reader

/-- The reader has given up. -/
def isRefused (reader : Reader β H) : Bool :=
  match reader.part with
  | .refused _ => true
  | _ => false

/-- The bytes of the open part. -/
def partBytes : Part β H → List β
  | .header got => got
  | .body hdr got => format.print hdr ++ got
  | .refused hdr => format.print hdr

/-- What was read in all. -/
def wire (reader : Reader β H) : List β :=
  reader.done.flatMap (fun message => format.print message.1 ++ message.2) ++
    partBytes format reader.part

/-- A header of full length that announces an allowed body, and so much of the body. -/
structure Entire (message : H × List β) : Prop where
  header : (format.print message.1).length = format.headerSize
  body : message.2.length = format.bodySize message.1
  allowed : format.bodySize message.1 ≤ format.limit

/-- The message in front still wants something. -/
def PartOpen : Part β H → Prop
  | .header got => got.length < format.headerSize
  | .body hdr got => (format.print hdr).length = format.headerSize ∧
      got.length < format.bodySize hdr ∧ format.bodySize hdr ≤ format.limit
  | .refused hdr => format.limit < format.bodySize hdr

/-- Every message that is done is entire, the one in front is not. -/
structure Whole (reader : Reader β H) : Prop where
  done : ∀ message ∈ reader.done, Entire format message
  part : PartOpen format reader.part

/-! ## Any cut -/

theorem absorb_append (reader : Reader β H) (bytes bytes' : List β) :
    absorb format reader (bytes ++ bytes') = absorb format (absorb format reader bytes) bytes' :=
  List.foldl_append

variable {reader : Reader β H}

theorem absorb_refused (refused : reader.isRefused = true) (bytes : List β) :
    absorb format reader bytes = reader := by
  obtain ⟨done, part⟩ := reader
  cases part with
  | header got => cases refused
  | body hdr got => cases refused
  | refused hdr =>
    induction bytes with
    | nil => rfl
    | cons b bytes ih => exact ih

/-! ## As much as the message in front wants -/

variable (done : List (H × List β))

theorem absorb_header_short (got bytes : List β)
    (short : got.length + bytes.length < format.headerSize) :
    absorb format ⟨done, .header got⟩ bytes = ⟨done, .header (got ++ bytes)⟩ := by
  induction bytes generalizing got with
  | nil => rw [List.append_nil]; rfl
  | cons b bytes ih =>
    have next : absorbOne format ⟨done, .header got⟩ b = ⟨done, .header (got ++ [b])⟩ := by
      rw [List.length_cons] at short
      exact if_pos (by omega)
    have rest := ih (got ++ [b]) (by
      rw [List.length_append, List.length_singleton]
      rw [List.length_cons] at short
      omega)
    rw [absorb, List.foldl_cons, next]
    rw [List.append_assoc, List.singleton_append] at rest
    exact rest

theorem absorb_header_rest (got bytes : List β) (isOpen : got.length < format.headerSize)
    (rest : got.length + bytes.length = format.headerSize) :
    absorb format ⟨done, .header got⟩ bytes = begun format done (format.parse (got ++ bytes)) := by
  -- The last of them completes the header.
  rcases List.eq_nil_or_concat bytes with rfl | ⟨front, last, rfl⟩
  · rw [List.length_nil] at rest
    omega
  rw [List.concat_eq_append, List.length_append, List.length_singleton] at rest
  rw [List.concat_eq_append, absorb_append, absorb_header_short format done got front (by omega)]
  have full : ¬(got ++ front).length + 1 < format.headerSize := by
    rw [List.length_append]
    omega
  rw [← List.append_assoc]
  exact if_neg full

theorem absorb_body (hdr : H) (got bytes : List β) (isOpen : got.length < format.bodySize hdr)
    (fits : got.length + bytes.length ≤ format.bodySize hdr) :
    absorb format ⟨done, .body hdr got⟩ bytes = filled format done hdr (got ++ bytes) := by
  induction bytes generalizing got with
  | nil =>
    rw [List.append_nil]
    exact (if_neg (by omega)).symm
  | cons b bytes ih =>
    rw [List.length_cons] at fits
    have grown : (got ++ [b]).length = got.length + 1 := by
      rw [List.length_append, List.length_singleton]
    show absorb format (filled format done hdr (got ++ [b])) bytes = _
    by_cases last : (got ++ [b]).length = format.bodySize hdr
    · have empty : bytes = [] := List.length_eq_zero_iff.mp (by omega)
      subst empty
      rfl
    · rw [filled, if_neg last, ih (got ++ [b]) (by omega) (by omega), List.append_assoc,
        List.singleton_append]

/-! ## What one element does -/

theorem filled_whole {done : List (H × List β)} {hdr : H} {got : List β}
    (whole : ∀ message ∈ done, Entire format message)
    (header : (format.print hdr).length = format.headerSize)
    (fits : got.length ≤ format.bodySize hdr) (allowed : format.bodySize hdr ≤ format.limit) :
    Whole format (filled format done hdr got) := by
  unfold filled
  by_cases full : got.length = format.bodySize hdr
  · rw [if_pos full]
    refine ⟨?_, format.headerSize_pos⟩
    intro message member
    rcases List.mem_append.mp member with before | new
    · exact whole message before
    · rw [List.mem_singleton.mp new]
      exact ⟨header, full, allowed⟩
  · rw [if_neg full]
    exact ⟨whole, header, by omega, allowed⟩

theorem begun_whole {done : List (H × List β)} {hdr : H}
    (whole : ∀ message ∈ done, Entire format message)
    (header : (format.print hdr).length = format.headerSize) :
    Whole format (begun format done hdr) := by
  unfold begun
  by_cases tooLong : format.limit < format.bodySize hdr
  · rw [if_pos tooLong]
    exact ⟨whole, tooLong⟩
  · rw [if_neg tooLong]
    exact filled_whole format whole header (Nat.zero_le _) (by omega)

theorem Whole.absorbOne (whole : Whole format reader) (b : β) :
    Whole format (absorbOne format reader b) := by
  obtain ⟨done, part⟩ := reader
  cases part with
  | header got =>
    have isOpen : got.length < format.headerSize := whole.part
    have grown : (got ++ [b]).length = got.length + 1 := by
      rw [List.length_append, List.length_singleton]
    show Whole format (if _ then _ else _)
    by_cases short : got.length + 1 < format.headerSize
    · rw [if_pos short]
      refine ⟨whole.done, ?_⟩
      show (got ++ [b]).length < format.headerSize
      omega
    rw [if_neg short]
    apply begun_whole format whole.done
    rw [format.print_parse _ (by omega)]
    omega
  | body hdr got =>
    obtain ⟨header, isOpen, allowed⟩ := whole.part
    refine filled_whole format whole.done header ?_ allowed
    rw [List.length_append, List.length_singleton]
    exact isOpen
  | refused hdr => exact whole

theorem Whole.absorb (whole : Whole format reader) (bytes : List β) :
    Whole format (absorb format reader bytes) := by
  induction bytes generalizing reader with
  | nil => exact whole
  | cons b bytes ih => exact ih (whole.absorbOne format b)

theorem wire_filled (hdr : H) (got : List β) :
    wire format (filled format done hdr got) = wire format ⟨done, .refused hdr⟩ ++ got := by
  unfold filled
  by_cases full : got.length = format.bodySize hdr
  · rw [if_pos full]
    simp [wire, partBytes]
  · rw [if_neg full]
    simp [wire, partBytes]

theorem wire_begun (hdr : H) :
    wire format (begun format done hdr) = wire format ⟨done, .refused hdr⟩ := by
  unfold begun
  by_cases tooLong : format.limit < format.bodySize hdr
  · rw [if_pos tooLong]
  · rw [if_neg tooLong, wire_filled, List.append_nil]

theorem wire_absorbOne (whole : Whole format reader) (accepted : reader.isRefused = false) (b : β) :
    wire format (absorbOne format reader b) = wire format reader ++ [b] := by
  obtain ⟨done, part⟩ := reader
  cases part with
  | header got =>
    have isOpen : got.length < format.headerSize := whole.part
    show wire format (if _ then _ else _) = _
    by_cases short : got.length + 1 < format.headerSize
    · rw [if_pos short]
      simp [wire, partBytes]
    have full : (got ++ [b]).length = format.headerSize := by
      rw [List.length_append, List.length_singleton]
      omega
    rw [if_neg short, wire_begun]
    simp [wire, partBytes, format.print_parse _ full]
  | body hdr got =>
    show wire format (filled format done hdr (got ++ [b])) = _
    rw [wire_filled]
    simp [wire, partBytes]
  | refused hdr => cases accepted

/-- What was read is the front of the stream, and all of it where the stream was not refused. -/
theorem wire_absorb (whole : Whole format reader) (accepted : reader.isRefused = false)
    (bytes : List β) :
    ∃ taken rest, bytes = taken ++ rest ∧
      wire format (absorb format reader bytes) = wire format reader ++ taken ∧
      ((absorb format reader bytes).isRefused = false → rest = []) := by
  induction bytes generalizing reader with
  | nil => exact ⟨[], [], rfl, (List.append_nil _).symm, fun _ => rfl⟩
  | cons b bytes ih =>
    have one := wire_absorbOne format whole accepted b
    cases next : (Reader.absorbOne format reader b).isRefused with
    | true =>
      have stays : Reader.absorb format reader (b :: bytes) = Reader.absorbOne format reader b :=
        absorb_refused format next bytes
      refine ⟨[b], bytes, rfl, by rw [stays, one], ?_⟩
      rw [stays, next]
      exact nofun
    | false =>
      obtain ⟨taken, rest, rfl, read, all⟩ := ih (whole.absorbOne format b) next
      refine ⟨b :: taken, rest, rfl, ?_, all⟩
      show wire format (Reader.absorb format (Reader.absorbOne format reader b) (taken ++ rest)) = _
      rw [read, one, List.append_assoc, List.singleton_append]

end Reader

end Framing
