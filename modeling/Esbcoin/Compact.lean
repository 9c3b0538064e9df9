import Esbcoin.Primitives

/-!
# Compact numbers

`uint256::bits`, `uint256::SetCompact` and `uint256::GetCompact` (`src/uint256.cpp`), and the work
of a target (`src/pow.cpp`).
-/

namespace Esbcoin

/-- `base_uint::bits` (`uint256.cpp:212-225`): the position of the highest bit that is set, from 1. -/
def bits (v : UInt256) : Nat := if v = 0 then 0 else v.toNat.log2 + 1

/-- `uint256::GetLow64`. -/
def getLow64 (v : UInt256) : UInt64 := UInt64.ofNat v.toNat

/-- `uint256::GetCompact` (`uint256.cpp:292-313`). Its assertions hold for every number. -/
def getCompact (v : UInt256) (fNegative : Bool) : UInt32 :=
  let nSize := (bits v + 7) / 8
  let nCompact :=
    if nSize ≤ 3 then (getLow64 v <<< UInt64.ofNat (8 * (3 - nSize))).toUInt32
    else (getLow64 (v >>> (8 * (nSize - 3)))).toUInt32
  -- the sign bit is part of the mantissa here: it moves down by a byte
  let signed := nCompact &&& 0x00800000 ≠ 0
  let nCompact := if signed then nCompact >>> 8 else nCompact
  let nSize := if signed then nSize + 1 else nSize
  let nCompact := nCompact ||| UInt32.ofNat nSize <<< 24
  nCompact ||| (if fNegative ∧ nCompact &&& 0x007fffff ≠ 0 then 0x00800000 else 0)

/-- `uint256::SetCompact` (`uint256.cpp:272-291`). -/
def setCompact (nCompact : UInt32) : UInt256 :=
  let nSize := (nCompact >>> 24).toNat
  let nWord := BitVec.ofNat 256 (nCompact &&& 0x007fffff).toNat
  if nSize ≤ 3 then nWord >>> (8 * (3 - nSize)) else nWord <<< (8 * (nSize - 3))

/-- `nWord` of `uint256::SetCompact` at its end. -/
def compactWord (nCompact : UInt32) : UInt32 :=
  let nSize := nCompact >>> 24
  let nWord := nCompact &&& 0x007fffff
  if nSize ≤ 3 then nWord >>> (8 * (3 - nSize)) else nWord

/-- `fNegative` of `uint256::SetCompact` (`uint256.cpp:283-284`). -/
def compactNegative (nCompact : UInt32) : Bool :=
  compactWord nCompact != 0 && nCompact &&& 0x00800000 != 0

/-- `fOverflow` of `uint256::SetCompact` (`uint256.cpp:285-288`). -/
def compactOverflow (nCompact : UInt32) : Bool :=
  let nSize := nCompact >>> 24
  let nWord := compactWord nCompact
  nWord != 0 && (nSize > 34 || (nWord > 0xff && nSize > 33) || (nWord > 0xffff && nSize > 32))

/-- `GetBlockProof` (`pow.cpp:148-161`). -/
def getBlockProof (nBits : UInt32) : Nat :=
  let bnTarget := setCompact nBits
  if compactNegative nBits || compactOverflow nBits || bnTarget == 0 then 0
  else (2 ^ 256 - 1 - bnTarget.toNat) / (bnTarget.toNat + 1) + 1

example : getCompact 0x12345678 false = 0x04123456 := by decide +kernel

example : getCompact 0x92340000 false = 0x05009234 := by decide +kernel

example : setCompact 0x04123456 = 0x12345600 := by decide +kernel

end Esbcoin
