import Esbcoin.Lib.Decimal
import Esbcoin.Net.Address

/-!
# Network addresses as text

`CService::ToString` (`src/netbase.cpp:878-903`, `:1230-1247`) and `EncodeBase32`
(`src/utilstrencodings.cpp:288-342`).
-/

namespace Esbcoin

/-! ## Base 32 -/

/-- `pbase32` (`utilstrencodings.cpp:290`). -/
def pbase32 : List Char := "abcdefghijklmnopqrstuvwxyz234567".toList

/-- A digit of `EncodeBase32`. -/
def base32Digit (n : Nat) : Char := pbase32.getD n 'a'

/-- `nPadding` (`utilstrencodings.cpp:334`). -/
def nPadding : List Nat := [0, 6, 4, 3, 1]

/-- The loop of `EncodeBase32` with the bits `left` of the byte before; these and the bits they are
joined with are apart, so the sum is their `|`. -/
def encodeBase32From (mode left : Nat) : List UInt8 → List Char
  | [] => if mode = 0 then [] else base32Digit left :: List.replicate (nPadding.getD mode 0) '='
  | enc :: rest =>
    match mode with
    | 0 => base32Digit (enc.toNat / 8) :: encodeBase32From 1 (enc.toNat % 8 * 4) rest
    | 1 =>
      base32Digit (left + enc.toNat / 64) :: base32Digit (enc.toNat / 2 % 32) ::
        encodeBase32From 2 (enc.toNat % 2 * 16) rest
    | 2 => base32Digit (left + enc.toNat / 16) :: encodeBase32From 3 (enc.toNat % 16 * 2) rest
    | 3 =>
      base32Digit (left + enc.toNat / 128) :: base32Digit (enc.toNat / 4 % 32) ::
        encodeBase32From 4 (enc.toNat % 4 * 8) rest
    | _ =>
      base32Digit (left + enc.toNat / 32) :: base32Digit (enc.toNat % 32) ::
        encodeBase32From 0 0 rest

/-- `EncodeBase32` (`utilstrencodings.cpp:288-342`). -/
def encodeBase32 (pch : List UInt8) : List Char := encodeBase32From 0 0 pch

/-- The bits that are left over in a mode. -/
def LeftOver (left : Nat) : Nat → Prop
  | 0 => left = 0
  | 1 => left < 32 ∧ left % 4 = 0
  | 2 => left < 32 ∧ left % 16 = 0
  | 3 => left < 32 ∧ left % 2 = 0
  | 4 => left < 32 ∧ left % 8 = 0
  | _ => False

theorem base32Digit_inj {n n' : Nat} (small : n < 32) (small' : n' < 32)
    (equal : base32Digit n = base32Digit n') : n = n' := by
  have all : ∀ d d' : Fin 32, base32Digit d = base32Digit d' → d = d' := by decide +kernel
  exact congrArg Fin.val (all ⟨n, small⟩ ⟨n', small'⟩ equal)

/-- As many bytes and what is left over are read off their digits. -/
theorem encodeBase32From_inj {mode left left' : Nat} {pch pch' : List UInt8}
    (spare : LeftOver left mode) (spare' : LeftOver left' mode) (size : pch.length = pch'.length)
    (equal : encodeBase32From mode left pch = encodeBase32From mode left' pch') :
    left = left' ∧ pch = pch' := by
  induction pch generalizing mode left left' pch' with
  | nil =>
    obtain rfl := List.length_eq_zero_iff.mp size.symm
    refine ⟨?_, rfl⟩
    simp only [encodeBase32From] at equal
    split at equal
    · rename_i none
      subst none
      exact spare.trans spare'.symm
    rename_i some
    have digit := (List.cons.inj equal).1
    have small : ∀ {m : Nat}, LeftOver m mode → m < 32 := by
      intro m spare
      rcases mode with _ | _ | _ | _ | _ | mode
      · exact absurd rfl some
      · exact spare.1
      · exact spare.1
      · exact spare.1
      · exact spare.1
      · exact spare.elim
    exact base32Digit_inj (small spare) (small spare') digit
  | cons enc rest ih =>
    cases pch' with
    | nil => cases size
    | cons enc' rest' =>
      have size := Nat.succ.inj size
      have byte := enc.toNat_lt
      have byte' := enc'.toNat_lt
      have same : ∀ {P : Prop}, enc.toNat = enc'.toNat → P → rest = rest' →
          P ∧ enc :: rest = enc' :: rest' := by
        intro P value proof tail
        exact ⟨proof, by rw [UInt8.toNat_inj.mp value, tail]⟩
      rcases mode with _ | _ | _ | _ | _ | mode
      · obtain ⟨first, tail⟩ := List.cons.inj equal
        have first := base32Digit_inj (by omega) (by omega) first
        obtain ⟨left, tail⟩ := @ih 1 _ _ _ ⟨by omega, by omega⟩ ⟨by omega, by omega⟩ size tail
        exact same (by omega) (spare.trans spare'.symm) tail
      · obtain ⟨small, fits⟩ := spare
        obtain ⟨small', fits'⟩ := spare'
        obtain ⟨first, tail⟩ := List.cons.inj equal
        obtain ⟨second, tail⟩ := List.cons.inj tail
        have first := base32Digit_inj (by omega) (by omega) first
        have second := base32Digit_inj (by omega) (by omega) second
        obtain ⟨left, tail⟩ := @ih 2 _ _ _ ⟨by omega, by omega⟩ ⟨by omega, by omega⟩ size tail
        exact same (by omega) (by omega) tail
      · obtain ⟨small, fits⟩ := spare
        obtain ⟨small', fits'⟩ := spare'
        obtain ⟨first, tail⟩ := List.cons.inj equal
        have first := base32Digit_inj (by omega) (by omega) first
        obtain ⟨left, tail⟩ := @ih 3 _ _ _ ⟨by omega, by omega⟩ ⟨by omega, by omega⟩ size tail
        exact same (by omega) (by omega) tail
      · obtain ⟨small, fits⟩ := spare
        obtain ⟨small', fits'⟩ := spare'
        obtain ⟨first, tail⟩ := List.cons.inj equal
        obtain ⟨second, tail⟩ := List.cons.inj tail
        have first := base32Digit_inj (by omega) (by omega) first
        have second := base32Digit_inj (by omega) (by omega) second
        obtain ⟨left, tail⟩ := @ih 4 _ _ _ ⟨by omega, by omega⟩ ⟨by omega, by omega⟩ size tail
        exact same (by omega) (by omega) tail
      · obtain ⟨small, fits⟩ := spare
        obtain ⟨small', fits'⟩ := spare'
        obtain ⟨first, tail⟩ := List.cons.inj equal
        obtain ⟨second, tail⟩ := List.cons.inj tail
        have first := base32Digit_inj (by omega) (by omega) first
        have second := base32Digit_inj (by omega) (by omega) second
        obtain ⟨-, tail⟩ := @ih 0 _ _ _ rfl rfl size tail
        exact same (by omega) (by omega) tail
      · exact spare.elim

theorem base32Digit_mem (n : Nat) : base32Digit n ∈ pbase32 := by
  unfold base32Digit
  rw [List.getD_eq_getElem?_getD]
  cases here : pbase32[n]? with
  | none => decide +kernel
  | some c => exact List.mem_of_getElem? here

/-- A character that `EncodeBase32` writes. -/
def isBase32Char (c : Char) : Bool := pbase32.contains c || c == '='

theorem isBase32Char_of_mem {mode left : Nat} {pch : List UInt8} {c : Char}
    (member : c ∈ encodeBase32From mode left pch) : isBase32Char c = true := by
  have digit : ∀ n, c = base32Digit n → isBase32Char c = true := by
    rintro n rfl
    have member := base32Digit_mem n
    unfold isBase32Char
    rw [List.contains_iff_mem.mpr member, Bool.true_or]
  induction pch generalizing mode left with
  | nil =>
    simp only [encodeBase32From] at member
    split at member
    · cases member
    rcases List.mem_cons.mp member with first | padding
    · exact digit _ first
    · rw [List.eq_of_mem_replicate padding]
      rfl
  | cons enc rest ih =>
    rcases mode with _ | _ | _ | _ | mode
    · rcases List.mem_cons.mp member with first | tail
      · exact digit _ first
      · exact ih tail
    · rcases List.mem_cons.mp member with first | tail
      · exact digit _ first
      · rcases List.mem_cons.mp tail with second | tail
        · exact digit _ second
        · exact ih tail
    · rcases List.mem_cons.mp member with first | tail
      · exact digit _ first
      · exact ih tail
    · rcases List.mem_cons.mp member with first | tail
      · exact digit _ first
      · rcases List.mem_cons.mp tail with second | tail
        · exact digit _ second
        · exact ih tail
    · rcases List.mem_cons.mp member with first | tail
      · exact digit _ first
      · rcases List.mem_cons.mp tail with second | tail
        · exact digit _ second
        · exact ih tail

/-! ## Addresses -/

/-- `pchIPv4` (`netbase.cpp:49`). -/
def pchIPv4 : List UInt8 := [0, 0, 0, 0, 0, 0, 0, 0, 0, 0, 0xff, 0xff]

/-- `pchOnionCat` (`netbase.cpp:666`). -/
def pchOnionCat : List UInt8 := [0xfd, 0x87, 0xd8, 0x7e, 0xeb, 0x43]

/-- `getnameinfo` with `NI_NUMERICHOST` of an IPv6 address: a text for each address, of hexadecimal
digits, colons and dots. -/
structure NumericHost where
  text : Vector UInt8 16 → List Char
  injective : Function.Injective text
  noBracket : ∀ ip, ']' ∉ text ip

namespace CService

/-- `CNetAddr::IsTor` (`netbase.cpp:800-803`). -/
def isTor (service : CService) : Bool := service.ip.toList.take 6 == pchOnionCat

/-- `CNetAddr::IsIPv4` (`netbase.cpp:718-721`). -/
def isIPv4 (service : CService) : Bool := service.ip.toList.take 12 == pchIPv4

/-- Four bytes with dots. -/
def dotted : List UInt8 → List Char
  | [] => []
  | [byte] => decimal byte.toNat
  | byte :: rest => decimal byte.toNat ++ '.' :: dotted rest

/-- `CNetAddr::ToStringIP` (`netbase.cpp:878-898`); for an IPv4 address `getnameinfo` and the format
behind it agree. -/
def toStringIP (host : NumericHost) (service : CService) : List Char :=
  if service.isTor then encodeBase32 (service.ip.toList.drop 6) ++ ".onion".toList
  else if service.isIPv4 then dotted (service.ip.toList.drop 12)
  else host.text service.ip

/-- `CService::ToStringPort` (`netbase.cpp:1230-1233`). -/
def toStringPort (service : CService) : List Char := decimal service.port.toNat

/-- `CService::ToString` (`netbase.cpp:1235-1247`). -/
def toText (host : NumericHost) (service : CService) : List Char :=
  if service.isIPv4 || service.isTor then
    service.toStringIP host ++ ':' :: service.toStringPort
  else '[' :: service.toStringIP host ++ ']' :: ':' :: service.toStringPort

theorem mem_dotted {bytes : List UInt8} {c : Char} (member : c ∈ dotted bytes) :
    isDecimalChar c = true ∨ c = '.' := by
  induction bytes with
  | nil => cases member
  | cons byte rest ih =>
    cases rest with
    | nil => exact Or.inl (isDecimalChar_of_mem member)
    | cons next rest =>
      rcases List.mem_append.mp member with number | tail
      · exact Or.inl (isDecimalChar_of_mem number)
      · rcases List.mem_cons.mp tail with dot | tail
        · exact Or.inr dot
        · exact ih tail

/-- As many bytes are read off their text. -/
theorem dotted_inj {bytes bytes' : List UInt8} (size : bytes.length = bytes'.length)
    (equal : dotted bytes = dotted bytes') : bytes = bytes' := by
  have value : ∀ byte byte' : UInt8, decimal byte.toNat = decimal byte'.toNat → byte = byte' := by
    intro byte byte' equal
    exact UInt8.toNat_inj.mp (Int.ofNat.inj (decimal_injective equal))
  have noDot : ∀ byte : UInt8, '.' ∉ decimal byte.toNat := by
    intro byte member
    have kind := isDecimalChar_of_mem member
    revert kind
    decide
  induction bytes generalizing bytes' with
  | nil => exact (List.length_eq_zero_iff.mp size.symm).symm
  | cons byte rest ih =>
    cases bytes' with
    | nil => cases size
    | cons byte' rest' =>
      have size := Nat.succ.inj size
      cases rest with
      | nil =>
        obtain rfl := List.length_eq_zero_iff.mp size.symm
        rw [value byte byte' equal]
      | cons next rest =>
        cases rest' with
        | nil => cases size
        | cons next' rest' =>
          obtain ⟨number, tail⟩ := cut_at (noDot byte) (noDot byte') equal
          rw [value byte byte' number, ih size tail]

section Text

variable {host : NumericHost} {service other : CService}

/-- An address that is written without brackets. -/
def isPlain (service : CService) : Bool := service.isIPv4 || service.isTor

theorem mem_toStringIP (plain : service.isPlain = true) {c : Char}
    (member : c ∈ service.toStringIP host) :
    isDecimalChar c = true ∨ c = '.' ∨ isBase32Char c = true := by
  unfold toStringIP at member
  split at member
  · rcases List.mem_append.mp member with name | suffix
    · exact Or.inr (Or.inr (isBase32Char_of_mem name))
    have chars : ".onion".toList = ['.', 'o', 'n', 'i', 'o', 'n'] := rfl
    rw [chars] at suffix
    simp only [List.mem_cons, List.not_mem_nil, or_false] at suffix
    rcases suffix with rfl | rfl | rfl | rfl | rfl | rfl
    · exact Or.inr (Or.inl rfl)
    all_goals exact Or.inr (Or.inr rfl)
  · rename_i noTor
    unfold isPlain at plain
    rw [Bool.eq_false_iff.mpr noTor, Bool.or_false] at plain
    rw [if_pos plain] at member
    rcases mem_dotted member with number | dot
    · exact Or.inl number
    · exact Or.inr (Or.inl dot)

theorem colon_notMem (plain : service.isPlain = true) : ':' ∉ service.toStringIP host := by
  intro member
  have kind := mem_toStringIP plain member
  revert kind
  decide +kernel

theorem bracket_notMem (plain : service.isPlain = true) : '[' ∉ service.toText host := by
  intro member
  unfold toText at member
  rw [show (service.isIPv4 || service.isTor) = true from plain, if_pos rfl] at member
  rcases List.mem_append.mp member with name | port
  · have kind := mem_toStringIP plain name
    revert kind
    decide +kernel
  rcases List.mem_cons.mp port with colon | port
  · exact absurd colon (by decide)
  · have kind := isDecimalChar_of_mem port
    revert kind
    decide

theorem ip_eq_of_parts {n : Nat} {first : List UInt8} (head : service.ip.toList.take n = first)
    (head' : other.ip.toList.take n = first)
    (tail : service.ip.toList.drop n = other.ip.toList.drop n) : service.ip = other.ip := by
  have bytes : service.ip.toList = other.ip.toList := by
    rw [← List.take_append_drop n service.ip.toList, head, tail, ← head', List.take_append_drop]
  exact Vector.toList_inj.mp bytes

/-- Without brackets, an address is read off its text. -/
theorem toStringIP_inj (plain : service.isPlain = true) (plain' : other.isPlain = true)
    (equal : service.toStringIP host = other.toStringIP host) : service.ip = other.ip := by
  have onion : ∀ service : CService, service.isTor = true →
      'n' ∈ service.toStringIP host := by
    intro service tor
    unfold toStringIP
    rw [if_pos tor, List.mem_append]
    exact Or.inr (by decide +kernel)
  have noOnion : ∀ service : CService, service.isTor = false → service.isPlain = true →
      'n' ∉ service.toStringIP host := by
    intro service noTor plain member
    unfold isPlain at plain
    rw [noTor, Bool.or_false] at plain
    unfold toStringIP at member
    rw [noTor, if_neg Bool.false_ne_true, if_pos plain] at member
    have kind := mem_dotted member
    revert kind
    decide
  have size : ∀ n, (service.ip.toList.drop n).length = (other.ip.toList.drop n).length := by
    intro n
    simp only [List.length_drop, Vector.length_toList]
  cases tor : service.isTor with
  | true =>
    cases tor' : other.isTor with
    | true =>
      unfold toStringIP at equal
      rw [if_pos tor, if_pos tor'] at equal
      have name := List.append_cancel_right equal
      have tail := (@encodeBase32From_inj 0 0 0 _ _ rfl rfl (size 6) name).2
      exact ip_eq_of_parts (beq_iff_eq.mp tor) (beq_iff_eq.mp tor') tail
    | false => exact absurd (equal ▸ onion service tor) (noOnion other tor' plain')
  | false =>
    cases tor' : other.isTor with
    | true => exact absurd (equal ▸ onion other tor') (noOnion service tor plain)
    | false =>
      unfold isPlain at plain plain'
      rw [tor, Bool.or_false] at plain
      rw [tor', Bool.or_false] at plain'
      unfold toStringIP at equal
      rw [tor, tor', if_neg Bool.false_ne_true, if_neg Bool.false_ne_true, if_pos plain,
        if_pos plain'] at equal
      exact ip_eq_of_parts (beq_iff_eq.mp plain) (beq_iff_eq.mp plain') (dotted_inj (size 12) equal)

theorem toText_of_plain (plain : service.isPlain = true) :
    service.toText host = service.toStringIP host ++ ':' :: service.toStringPort := by
  unfold toText
  rw [show (service.isIPv4 || service.isTor) = true from plain, if_pos rfl]

theorem toText_of_bracketed (bracketed : service.isPlain = false) :
    service.toText host = '[' :: (host.text service.ip ++ ']' :: ':' :: service.toStringPort) := by
  have noTor : service.isTor = false ∧ service.isIPv4 = false := by
    unfold isPlain at bracketed
    rw [Bool.or_eq_false_iff] at bracketed
    exact bracketed.symm
  unfold toText toStringIP
  rw [noTor.1, noTor.2, Bool.or_false, if_neg Bool.false_ne_true, if_neg Bool.false_ne_true,
    if_neg Bool.false_ne_true, List.cons_append]

/-- Texts with and without a bracket differ in the first character. -/
theorem plain_ne_bracketed {rest rest' : List Char} (plain : service.isPlain = true)
    (bracketed : other.isPlain = false) :
    service.toText host ++ rest ≠ other.toText host ++ rest' := by
  intro equal
  have noBracket := @bracket_notMem host _ plain
  rw [toText_of_bracketed bracketed] at equal
  cases text : service.toText host with
  | nil =>
    rw [toText_of_plain plain] at text
    have empty := List.append_eq_nil_iff.mp text
    cases empty.2
  | cons c tail =>
    rw [text, List.cons_append, List.cons_append] at equal
    rw [text, (List.cons.inj equal).1] at noBracket
    exact noBracket List.mem_cons_self

/-- An address with a known port is read off a text that begins with it. -/
theorem toText_append_inj {rest rest' : List Char} (port : service.port = other.port)
    (equal : service.toText host ++ rest = other.toText host ++ rest') :
    service = other ∧ rest = rest' := by
  have both : service.ip = other.ip ∧ rest = rest' := by
    cases plain : service.isPlain with
    | true =>
      cases plain' : other.isPlain with
      | true =>
        rw [toText_of_plain plain, toText_of_plain plain', List.append_assoc, List.append_assoc,
          List.cons_append, List.cons_append] at equal
        obtain ⟨name, tail⟩ := cut_at (colon_notMem plain) (colon_notMem plain') equal
        rw [toStringPort, toStringPort, port] at tail
        exact ⟨toStringIP_inj plain plain' name, List.append_cancel_left tail⟩
      | false => exact absurd equal (plain_ne_bracketed plain plain')
    | false =>
      cases plain' : other.isPlain with
      | true => exact absurd equal.symm (plain_ne_bracketed plain' plain)
      | false =>
        rw [toText_of_bracketed plain, toText_of_bracketed plain', List.cons_append,
          List.cons_append, List.append_assoc, List.append_assoc] at equal
        obtain ⟨name, tail⟩ := cut_at (host.noBracket _) (host.noBracket _) (List.cons.inj equal).2
        have port_tail := (List.cons.inj tail).2
        rw [toStringPort, toStringPort, port] at port_tail
        exact ⟨host.injective name, List.append_cancel_left port_tail⟩
  refine ⟨?_, both.2⟩
  rw [CService.mk.injEq]
  exact ⟨both.1, port⟩

end Text

end CService

end Esbcoin
