import Esbcoin.Masternode.Manager
import Esbcoin.Serialize

/-!
# Global messages

The messages of the game master (`src/gm.h`, `src/gm.cpp`) and the keys it lets sign others:
`CGM::ProcessMessage` with the commands that change the keys, over the two maps it works on. The
clock is read once for a message. Relaying, `setKnown` of the peers, the logs and `-gmnotify` are
left out.
-/

namespace Esbcoin

open Bytes

/-- `CPubKey::Set` (`pubkey.h:68-76`). -/
def CPubKey.set (vch : List UInt8) : CPubKey :=
  if valid : isValidPubKey vch = true then ⟨vch, Or.inr valid⟩ else .invalid

/-! ## Base58 -/

/-- `isspace` in the C locale. -/
def isSpace (c : UInt8) : Bool := c == 32 || (9 ≤ c && c ≤ 13)

/-- The characters of a literal. -/
def chars (text : String) : List UInt8 := text.toList.map fun c => c.toNat.toUInt8

/-- `pszBase58` (`base58.cpp:20`). -/
def pszBase58 : List UInt8 :=
  chars "123456789ABCDEFGHJKLMNPQRSTUVWXYZabcdefghijkmnopqrstuvwxyz"

/-- `DecodeBase58` (`base58.cpp:22-64`, `:123-126`). `b256` is the number in its vector, which is
large enough for every carry. -/
def decodeBase58 (str : List UInt8) : Option (List UInt8) := do
  let psz := (str.takeWhile (· != 0)).dropWhile isSpace
  let zeroes := (psz.takeWhile (· == 49)).length
  let psz := psz.dropWhile (· == 49)
  let size := psz.length * 733 / 1000 + 1
  let digits ← (psz.takeWhile fun c => !isSpace c).mapM fun c => pszBase58.findIdx? (· == c)
  let b256 := digits.foldl (fun b256 ch => b256 * 58 + ch) 0
  if (psz.dropWhile fun c => !isSpace c).all isSpace then
    some (List.replicate zeroes 0 ++ (littleEndian size b256).reverse.dropWhile (· == 0))
  else none

/-! ## Messages -/

/-- `CUnsignedMessage` (`gm.h:39-50`). -/
structure CUnsignedMessage where
  nVersion : Int
  nSignerID : Int
  nExpiration : Int
  nID : Int
  nCancel : Int
  setCancel : List Int
  strData : List UInt8
  strStatus : List UInt8
deriving DecidableEq, Repr

namespace CUnsignedMessage

/-- `CUnsignedMessage::SetNull` (`gm.cpp:94-105`). -/
def null : CUnsignedMessage := ⟨1, 0, 0, 0, 0, [], [], []⟩

/-- What `CUnsignedMessage::SerializationOp` writes (`gm.h:55-68`). -/
def serialize (message : CUnsignedMessage) : List UInt8 :=
  signedBytes 4 message.nVersion ++ signedBytes 4 message.nSignerID ++
    signedBytes 4 message.nExpiration ++ signedBytes 8 message.nID ++
    signedBytes 8 message.nCancel ++ sizedElements (signedBytes 8) message.setCancel ++
    sizedBytes message.strData ++ sizedBytes message.strStatus

/-- The elements of a set, one after the other (`serialize.h:866-871`). -/
def readElements {α : Type} (read : List UInt8 → Option (α × List UInt8)) :
    Nat → List UInt8 → Option (List α × List UInt8)
  | 0, s => some ([], s)
  | nSize + 1, s => do
    let (key, s) ← read s
    let (keys, s) ← readElements read nSize s
    some (key :: keys, s)

/-- What `CUnsignedMessage::SerializationOp` reads (`gm.h:55-68`). -/
def unserialize (s : List UInt8) : Option CUnsignedMessage := do
  let (nVersion, s) ← readSigned 4 s
  let (nSignerID, s) ← readSigned 4 s
  let (nExpiration, s) ← readSigned 4 s
  let (nID, s) ← readSigned 8 s
  let (nCancel, s) ← readSigned 8 s
  let (nSize, s) ← readCompactSize s
  let (setCancel, s) ← readElements (readSigned 8) nSize s
  let (strData, s) ← readSizedBytes 65536 s
  let (strStatus, _) ← readSizedBytes 256 s
  some { nVersion, nSignerID, nExpiration, nID, nCancel, setCancel, strData, strStatus }

/-- `CGM::IsInEffect` (`gm.cpp:150-153`) at `GetTime() = now`. -/
def isInEffect (now : Int) (message : CUnsignedMessage) : Bool := now < message.nExpiration

/-- `CGM::Cancels` (`gm.cpp:155-160`). -/
def cancels (now : Int) (this message : CUnsignedMessage) : Bool :=
  this.isInEffect now && (message.nID ≤ this.nCancel || this.setCancel.contains message.nID)

/-- The largest number is kept for the announcement of a stolen key (`gm.cpp:235-239`). -/
def idAllowed (this : CUnsignedMessage) : Bool :=
  this.nID != 2 ^ 63 - 1 ||
    (this.nCancel == 2 ^ 63 - 2 &&
      this.strStatus == chars "URGENT: GM key compromised, upgrade required")

end CUnsignedMessage

/-- `CGM` (`gm.h:75-112`). -/
structure CGM extends CUnsignedMessage where
  vchMsg : List UInt8
  vchSig : List UInt8
deriving DecidableEq, Repr

/-- An entry of an "STS" command (`gm.cpp:284`). -/
structure SignerEntry where
  nID : Int
  nAR : Int
  vchKey : List UInt8
deriving DecidableEq

namespace SignerEntry

/-- An entry of the signers as bytes. -/
def serialize (entry : SignerEntry) : List UInt8 :=
  signedBytes 4 entry.nID ++ signedBytes 4 entry.nAR ++ sizedBytes entry.vchKey

/-- Reads an entry of the signers. -/
def read (s : List UInt8) : Option (SignerEntry × List UInt8) := do
  let (nID, s) ← readSigned 4 s
  let (nAR, s) ← readSigned 4 s
  let (vchKey, s) ← readSizedBytes MAX_SIZE s
  some (⟨nID, nAR, vchKey⟩, s)

end SignerEntry

/-- What processing a message takes from outside: `Hash`, `Params().GMKey()`, ECDSA. -/
structure GMContext where
  hash : List UInt8 → UInt256
  gmKey : CPubKey
  verify : CPubKey → UInt256 → List UInt8 → Bool
  isFullyValid : CPubKey → Bool

/-- `mapGMSigners` (`gm.cpp:33`): the key of a signer and its level. -/
abbrev GMSigners := AssocMap Int (CPubKey × Int)

/-- The maps of the manager (`gm.cpp:29`, `:33`). -/
structure GMState where
  mapGMs : AssocMap UInt256 CGM
  mapGMSigners : GMSigners

/-- How `CGM::ProcessMessage` ends. -/
inductive GMOutcome
  | accepted
  | rejected
  | thrown
deriving DecidableEq, Repr

namespace CGM

variable (c : GMContext) (now : Int)

/-- `CGM::GetHash` (`gm.cpp:145-148`). -/
def getHash (this : CGM) : UInt256 := c.hash this.vchMsg

/-- The fields that `CGM::CheckSignature` reads into the message (`gm.cpp:195-196`). -/
def unserialized (this : CGM) : Option CGM :=
  (CUnsignedMessage.unserialize this.vchMsg).map fun message =>
    { this with toCUnsignedMessage := message }

/-- `CGM::CheckSignature` (`gm.cpp:197-213`) of a message whose fields are read: `sLevel`. -/
def checkSignature (signers : GMSigners) (this : CGM) : Option Int :=
  if this.nSignerID = 0 then
    if c.verify c.gmKey (c.hash this.vchMsg) this.vchSig then some 0 else none
  else match signers.lookup this.nSignerID with
    | none => none
    | some (key, level) =>
      if c.verify key (c.hash this.vchMsg) this.vchSig then some level else none

/-- The branch of an entry of "STS" (`gm.cpp:285-287`). -/
def setSigner (signers : GMSigners) (entry : SignerEntry) : GMSigners :=
  if c.isFullyValid (CPubKey.set entry.vchKey) then
    signers.insert entry.nID (CPubKey.set entry.vchKey, entry.nAR)
  else signers

/-- The branch of an entry of "RTS" (`gm.cpp:297`). -/
def eraseSigner (signers : GMSigners) (nID : Int) : GMSigners := signers.erase nID

/-- The commands of the game master (`gm.cpp:274-301`); `false` when reading the data throws. -/
def runCommand (this : CGM) (signers : GMSigners) : Bool × GMSigners :=
  if this.strStatus = chars "STS" then
    match decodeBase58 this.strData with
    | none => (true, signers)
    | some vchRet => whileReads SignerEntry.read (setSigner c) vchRet.length vchRet signers
  else if this.strStatus = chars "RTS" then
    match decodeBase58 this.strData with
    | none => (true, signers)
    | some vchRet => whileReads (readSigned 4) eraseSigner vchRet.length vchRet signers
  else (true, signers)

/-- Is the message left in the map (`gm.cpp:247`)? -/
def keeps (this message : CGM) : Bool :=
  !(this.cancels now message.toCUnsignedMessage || !message.isInEffect now)

/-- What `CGM::ProcessMessage` does under the lock (`gm.cpp:242-307`). -/
def store (sLevel : Int) (s : GMState) (this : CGM) : GMOutcome × GMState :=
  let mapGMs := s.mapGMs.retain fun _ message => this.keeps now message
  if sLevel == 1 && now + 60 < this.nExpiration then (.rejected, { s with mapGMs })
  else if mapGMs.contains (this.getHash c) then (.rejected, { s with mapGMs })
  else
    let mapGMs := mapGMs.insert (this.getHash c) this
    if this.nSignerID = 0 then
      let (complete, mapGMSigners) := this.runCommand c s.mapGMSigners
      (if complete then .accepted else .thrown, { mapGMs, mapGMSigners })
    else (.accepted, { s with mapGMs })

/-- `CGM::ProcessMessage` (`gm.cpp:227-311`). -/
def processMessage (s : GMState) (this : CGM) : GMOutcome × GMState :=
  match this.unserialized with
  | none => (.thrown, s)
  | some this =>
    match this.checkSignature c s.mapGMSigners with
    | none => (.rejected, s)
    | some sLevel =>
      if this.isInEffect now && this.idAllowed then this.store c now sLevel s else (.rejected, s)

end CGM

end Esbcoin
