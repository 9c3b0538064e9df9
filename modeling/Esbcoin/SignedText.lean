import Esbcoin.Masternode.Payments
import Esbcoin.ScriptText

/-!
# Signed texts

The text that a spork (`CSporkManager::CheckSignature`, `src/spork.cpp:2590-2603`) and the vote of a
masternode (`CMasternodePaymentWinner::SignatureValid`, `src/masternode-payments.cpp:767-785`) is
signed by. Its numbers stand next to each other without a separator or a width, so a text belongs to
every message it can be cut into; the message hashes (`CSporkMessage::GetHash`) take the fields in
binary.
-/

namespace Esbcoin

/-- `obfuScationSigner.VerifyMessage` (`obfuscation.cpp:2170-2186`) of key, signature and text. -/
abbrev VerifyMessage := List UInt8 → List UInt8 → List Char → Bool

/-- Under one key a signature is good for one text. -/
def OneText (verify : VerifyMessage) : Prop :=
  ∀ pubkey vchSig text text', verify pubkey vchSig text = true →
    verify pubkey vchSig text' = true → text = text'

/-- Read the decimal of an `int`. -/
abbrev readInt32 : List Char → Option Int := readInRange (-2 ^ 31) (2 ^ 31)

/-- Read the decimal of an `int64_t`. -/
abbrev readInt64 : List Char → Option Int := readInRange (-2 ^ 63) (2 ^ 63)

/-- Read the decimal of an `unsigned int`. -/
abbrev readUInt32 : List Char → Option Int := readInRange 0 (2 ^ 32)

/-! ## Sporks -/

/-- `CSporkMessage` (`spork.h:82-109`). -/
structure CSporkMessage where
  vchSig : List UInt8
  nSporkID : Int32
  nValue : Int64
  nTimeSigned : Int64
deriving DecidableEq

namespace CSporkMessage

/-- `strMessage` (`spork.cpp:2593`). -/
def strMessage (spork : CSporkMessage) : List Char :=
  decimal spork.nSporkID.toInt ++ decimal spork.nValue.toInt ++ decimal spork.nTimeSigned.toInt

/-- `CSporkManager::CheckSignature` (`spork.cpp:2590-2603`) under `Params().SporkKey()`. -/
def checkSignature (verify : VerifyMessage) (sporkKey : List UInt8) (spork : CSporkMessage) :
    Bool :=
  verify sporkKey spork.vchSig spork.strMessage

/-- The fields that a spork's text is made of agree. -/
def SameCommand (first second : CSporkMessage) : Prop :=
  first.nSporkID = second.nSporkID ∧ first.nValue = second.nValue ∧
    first.nTimeSigned = second.nTimeSigned

/-- No other command has its text, or its signature. -/
structure Determined (spork : CSporkMessage) : Prop where
  text : ∀ other : CSporkMessage, other.strMessage = spork.strMessage → other.SameCommand spork
  accepted : ∀ verify, OneText verify → ∀ sporkKey, spork.checkSignature verify sporkKey = true →
    ∀ other : CSporkMessage, other.vchSig = spork.vchSig →
      other.checkSignature verify sporkKey = true → other.SameCommand spork

/-- The text of a message is cut into the numbers of a message at one pair of places only. -/
def OnlyCut (spork : CSporkMessage) : Prop :=
  ∀ i j, i ≤ j → j ≤ spork.strMessage.length →
    (readInt32 (spork.strMessage.take i)).isSome = true →
    (readInt64 ((spork.strMessage.take j).drop i)).isSome = true →
    (readInt64 (spork.strMessage.drop j)).isSome = true →
    i = (decimal spork.nSporkID.toInt).length ∧
      j = (decimal spork.nSporkID.toInt).length + (decimal spork.nValue.toInt).length

variable {spork other : CSporkMessage}

theorem readInt32_decimal (n : Int32) : readInt32 (decimal n.toInt) = some n.toInt :=
  readInRange_eq_some.mpr ⟨rfl, n.le_toInt, n.toInt_lt⟩

theorem readInt64_decimal (n : Int64) : readInt64 (decimal n.toInt) = some n.toInt :=
  readInRange_eq_some.mpr ⟨rfl, n.le_toInt, n.toInt_lt⟩

theorem exists_int32 {text : List Char} (read : (readInt32 text).isSome = true) :
    ∃ n : Int32, decimal n.toInt = text := by
  obtain ⟨n, read⟩ := Option.isSome_iff_exists.mp read
  obtain ⟨written, low, high⟩ := readInRange_eq_some.mp read
  exact ⟨Int32.ofInt n, by rw [Int32.toInt_ofInt_of_le low high, written]⟩

theorem exists_int64 {text : List Char} (read : (readInt64 text).isSome = true) :
    ∃ n : Int64, decimal n.toInt = text := by
  obtain ⟨n, read⟩ := Option.isSome_iff_exists.mp read
  obtain ⟨written, low, high⟩ := readInRange_eq_some.mp read
  exact ⟨Int64.ofInt n, by rw [Int64.toInt_ofInt_of_le low high, written]⟩

theorem sameCommand_of_onlyCut (only : spork.OnlyCut)
    (equal : other.strMessage = spork.strMessage) : other.SameCommand spork := by
  have parts := parts_append (decimal other.nSporkID.toInt) (decimal other.nValue.toInt)
    (decimal other.nTimeSigned.toInt)
  rw [show decimal other.nSporkID.toInt ++ decimal other.nValue.toInt ++
    decimal other.nTimeSigned.toInt = spork.strMessage from equal] at parts
  have own := parts_append (decimal spork.nSporkID.toInt) (decimal spork.nValue.toInt)
    (decimal spork.nTimeSigned.toInt)
  have inside : (decimal other.nSporkID.toInt).length + (decimal other.nValue.toInt).length ≤
      spork.strMessage.length := by
    rw [← equal]
    simp only [strMessage, List.length_append]
    omega
  obtain ⟨first, second⟩ := only _ _ (Nat.le_add_right _ _) inside
    (by rw [parts.first, readInt32_decimal]; rfl) (by rw [parts.second, readInt64_decimal]; rfl)
    (by rw [parts.third, readInt64_decimal]; rfl)
  rw [second, first] at parts
  refine ⟨?_, ?_, ?_⟩
  · exact Int32.toInt_inj.mp (decimal_injective (parts.first.symm.trans own.first))
  · exact Int64.toInt_inj.mp (decimal_injective (parts.second.symm.trans own.second))
  · exact Int64.toInt_inj.mp (decimal_injective (parts.third.symm.trans own.third))

theorem onlyCut_of_text
    (text : ∀ other : CSporkMessage, other.strMessage = spork.strMessage → other.SameCommand spork) :
    spork.OnlyCut := by
  intro i j order inside first second third
  obtain ⟨nSporkID, nSporkID_eq⟩ := exists_int32 first
  obtain ⟨nValue, nValue_eq⟩ := exists_int64 second
  obtain ⟨nTimeSigned, nTimeSigned_eq⟩ := exists_int64 third
  have parts : Parts spork.strMessage i j (decimal nSporkID.toInt) (decimal nValue.toInt)
      (decimal nTimeSigned.toInt) := ⟨nSporkID_eq.symm, nValue_eq.symm, nTimeSigned_eq.symm⟩
  obtain ⟨hID, hValue, -⟩ := text ⟨[], nSporkID, nValue, nTimeSigned⟩ (parts.append order)
  rw [← hID, ← hValue]
  exact parts.cuts order inside

/-- A spork is the only one with its text exactly if the text is cut at one pair of places. -/
theorem determined_iff : spork.Determined ↔ spork.OnlyCut := by
  constructor
  · intro determined
    exact onlyCut_of_text determined.text
  intro only
  refine ⟨fun other => sameCommand_of_onlyCut only, ?_⟩
  intro verify oneText sporkKey good other signature accepted
  unfold checkSignature at good accepted
  rw [signature] at accepted
  exact sameCommand_of_onlyCut only (oneText _ _ _ _ accepted good)

end CSporkMessage

/-! ## Payment winners -/

namespace Payments

/-- A winner as it can be received: its height is an `int`. -/
structure SignedWinner extends CMasternodePaymentWinner where
  isInt : -2 ^ 31 ≤ nBlockHeight ∧ nBlockHeight < 2 ^ 31

/-- `COutPoint::ToStringShort` (`primitives/transaction.cpp:26-29`). -/
def toStringShort (prevout : COutPoint) : List Char :=
  hexText 64 prevout.hash.toNat ++ '-' :: decimal prevout.n.toNat

/-- `strMessage` (`masternode-payments.cpp:317-319`, `:774-776`). -/
def winnerText (prevout : COutPoint) (nBlockHeight : Int) (payee : CScript) : List Char :=
  toStringShort prevout ++ decimal nBlockHeight ++ payee.toText

/-- The environment that verifies texts. -/
def PaymentsEnv.onText (env : PaymentsEnv) (verify : VerifyMessage) : PaymentsEnv :=
  { env with
    verifyMessage := fun pubkey vchSig prevout nBlockHeight payee =>
      verify pubkey vchSig (winnerText prevout nBlockHeight payee) }

namespace SignedWinner

/-- The text that a winner is signed by. -/
def strMessage (winner : SignedWinner) : List Char :=
  winnerText winner.vinMasternode.prevout winner.nBlockHeight winner.payee

/-- The part of the text behind the hash and the dash. -/
def tail (winner : SignedWinner) : List Char :=
  decimal winner.vinMasternode.prevout.n.toNat ++ decimal winner.nBlockHeight ++ winner.payee.toText

/-- The fields that a winner's text is made of agree. -/
def SameVote (first second : SignedWinner) : Prop :=
  first.vinMasternode.prevout = second.vinMasternode.prevout ∧
    first.nBlockHeight = second.nBlockHeight ∧ first.payee = second.payee

/-- The key a winner is verified under (`masternode-payments.cpp:769-778`). -/
def signer (env : PaymentsEnv) (winner : SignedWinner) : Option (List UInt8) :=
  (findVin env.vMasternodes winner.vinMasternode).map CMasternode.pubKeyMasternode

/-- The signed text determines the vote, and its signature is accepted for no other under the same
key. -/
structure Determined (winner : SignedWinner) : Prop where
  text : ∀ other : SignedWinner, other.strMessage = winner.strMessage → other.SameVote winner
  accepted : ∀ (env : PaymentsEnv) (verify : VerifyMessage), OneText verify →
    winner.signatureValid (env.onText verify) = true →
    ∀ other : SignedWinner, other.vchSig = winner.vchSig → other.signer env = winner.signer env →
      other.signatureValid (env.onText verify) = true → other.SameVote winner

/-- The text behind the hash is cut into output number, height and payee at one pair of places only,
and no other payee has the text of this one. -/
def OnlyCut (winner : SignedWinner) : Prop :=
  ∀ i j payee, i ≤ j → j ≤ winner.tail.length → (readUInt32 (winner.tail.take i)).isSome = true →
    (readInt32 ((winner.tail.take j).drop i)).isSome = true →
    CScript.toText payee = winner.tail.drop j →
    i = (decimal winner.vinMasternode.prevout.n.toNat).length ∧
      j = (decimal winner.vinMasternode.prevout.n.toNat).length +
        (decimal winner.nBlockHeight).length ∧ payee = winner.payee

variable {winner other : SignedWinner}

theorem strMessage_eq (winner : SignedWinner) :
    winner.strMessage = hexText 64 winner.vinMasternode.prevout.hash.toNat ++ '-' :: winner.tail := by
  simp only [strMessage, winnerText, toStringShort, tail, List.append_assoc, List.cons_append]

/-- The hash has a width, so it is read off the text. -/
theorem strMessage_eq_iff : other.strMessage = winner.strMessage ↔
    other.vinMasternode.prevout.hash = winner.vinMasternode.prevout.hash ∧
      other.tail = winner.tail := by
  rw [strMessage_eq, strMessage_eq]
  constructor
  · intro equal
    obtain ⟨hash, rest⟩ := List.append_inj equal (by rw [hexText_length, hexText_length])
    refine ⟨BitVec.eq_of_toNat_eq (hexText_injective ?_ ?_ hash), (List.cons.inj rest).2⟩
    · exact lt_of_lt_of_eq (BitVec.isLt _) (by decide +kernel)
    · exact lt_of_lt_of_eq (BitVec.isLt _) (by decide +kernel)
  · rintro ⟨hash, tail⟩
    rw [hash, tail]

theorem readUInt32_decimal (n : UInt32) : readUInt32 (decimal n.toNat) = some (n.toNat : Int) := by
  refine readInRange_eq_some.mpr ⟨rfl, by omega, ?_⟩
  have small := n.toNat_lt
  omega

theorem exists_uint32 {text : List Char} (read : (readUInt32 text).isSome = true) :
    ∃ n : UInt32, decimal n.toNat = text := by
  obtain ⟨n, read⟩ := Option.isSome_iff_exists.mp read
  obtain ⟨written, low, high⟩ := readInRange_eq_some.mp read
  refine ⟨UInt32.ofNat n.toNat, ?_⟩
  rw [UInt32.toNat_ofNat_of_lt' (by rw [UInt32.size]; omega), Int.toNat_of_nonneg low, written]

theorem sameVote_of_onlyCut (only : winner.OnlyCut)
    (equal : other.strMessage = winner.strMessage) : other.SameVote winner := by
  obtain ⟨hash, tail⟩ := strMessage_eq_iff.mp equal
  have parts := parts_append (decimal other.vinMasternode.prevout.n.toNat)
    (decimal other.nBlockHeight) other.payee.toText
  rw [show decimal other.vinMasternode.prevout.n.toNat ++ decimal other.nBlockHeight ++
    other.payee.toText = winner.tail from tail] at parts
  have own := parts_append (decimal winner.vinMasternode.prevout.n.toNat)
    (decimal winner.nBlockHeight) winner.payee.toText
  have inside : (decimal other.vinMasternode.prevout.n.toNat).length +
      (decimal other.nBlockHeight).length ≤ winner.tail.length := by
    rw [← tail]
    simp only [SignedWinner.tail, List.length_append]
    omega
  have height : readInt32 (decimal other.nBlockHeight) = some other.nBlockHeight :=
    readInRange_eq_some.mpr ⟨rfl, other.isInt⟩
  obtain ⟨first, second, payee⟩ := only _ _ other.payee (Nat.le_add_right _ _) inside
    (by rw [parts.first, readUInt32_decimal]; rfl)
    (by rw [parts.second, height]; rfl) parts.third.symm
  rw [second, first] at parts
  have n := decimal_injective (parts.first.symm.trans own.first)
  refine ⟨?_, decimal_injective (parts.second.symm.trans own.second), payee⟩
  rw [COutPoint.mk.injEq]
  exact ⟨hash, UInt32.toNat_inj.mp (Int.ofNat.inj n)⟩

theorem onlyCut_of_text
    (text : ∀ other : SignedWinner, other.strMessage = winner.strMessage → other.SameVote winner) :
    winner.OnlyCut := by
  intro i j payee order inside first second third
  obtain ⟨n, n_eq⟩ := exists_uint32 first
  obtain ⟨nBlockHeight, read⟩ := Option.isSome_iff_exists.mp second
  obtain ⟨height_eq, isInt⟩ := readInRange_eq_some.mp read
  have parts : Parts winner.tail i j (decimal n.toNat) (decimal nBlockHeight) payee.toText :=
    ⟨n_eq.symm, height_eq.symm, third.symm⟩
  let other : SignedWinner :=
    { winner with
      vinMasternode := { winner.vinMasternode with
        prevout := ⟨winner.vinMasternode.prevout.hash, n⟩ }
      nBlockHeight
      payee
      isInt }
  obtain ⟨prevout, height, hPayee⟩ := text other
    (strMessage_eq_iff.mpr ⟨rfl, parts.append order⟩)
  have hn : n = winner.vinMasternode.prevout.n := congrArg COutPoint.n prevout
  have hHeight : nBlockHeight = winner.nBlockHeight := height
  rw [← hn, ← hHeight]
  obtain ⟨cut, cut'⟩ := parts.cuts order inside
  exact ⟨cut, cut', hPayee⟩

/-- A winner is the only one with its text exactly if the text is cut at one pair of places and its
payee is the only one with its text. -/
theorem determined_iff : winner.Determined ↔ winner.OnlyCut := by
  constructor
  · intro determined
    exact onlyCut_of_text determined.text
  intro only
  refine ⟨fun other => sameVote_of_onlyCut only, ?_⟩
  intro env verify oneText good other signature sameKey accepted
  refine sameVote_of_onlyCut only ?_
  unfold signer at sameKey
  unfold CMasternodePaymentWinner.signatureValid at good accepted
  cases found : findVin env.vMasternodes winner.vinMasternode with
  | none =>
    rw [show findVin (env.onText verify).vMasternodes winner.vinMasternode = none from found]
      at good
    cases good
  | some pmn =>
    rw [found, Option.map_some, Option.map_eq_some_iff] at sameKey
    obtain ⟨pmn', found', key⟩ := sameKey
    rw [show findVin (env.onText verify).vMasternodes winner.vinMasternode = some pmn from found]
      at good
    rw [show findVin (env.onText verify).vMasternodes other.vinMasternode = some pmn' from found']
      at accepted
    simp only [key, signature] at accepted
    exact oneText _ _ _ _ accepted good

end SignedWinner

end Payments

/-- The signed texts of sporks and winners determine the fields exactly where they can be cut in one
way. -/
theorem signedText_determines_iff (spork : CSporkMessage) (winner : Payments.SignedWinner) :
    (spork.Determined ↔ spork.OnlyCut) ∧ (winner.Determined ↔ winner.OnlyCut) :=
  ⟨CSporkMessage.determined_iff, Payments.SignedWinner.determined_iff⟩

/-! ## Two sporks with one text -/

def sampleSporkMessage : CSporkMessage where
  vchSig := []
  nSporkID := 10009
  nValue := 1234
  nTimeSigned := 1545731364

/-- The same text with the last digit of the value moved to the time. -/
def recutSporkMessage : CSporkMessage where
  vchSig := []
  nSporkID := 10009
  nValue := 123
  nTimeSigned := 41545731364

/-- A signature of a spork is accepted for another value at a later time. -/
theorem recut_spork_accepted :
    ¬ ∀ (spork : CSporkMessage) (winner : Payments.SignedWinner),
      spork.Determined ∧ winner.Determined := by
  intro claim
  have winner : Payments.SignedWinner :=
    { vinMasternode := { prevout := COutPoint.null }, nBlockHeight := 0, payee := [], vchSig := []
      payeeLevel := 1, isInt := by decide }
  have same := (claim sampleSporkMessage winner).1.text recutSporkMessage (by decide +kernel)
  have value := same.2.1
  revert value
  decide +kernel

end Esbcoin
