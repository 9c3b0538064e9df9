import Esbcoin.Net.AddressText

/-!
# Routable addresses and address groups

`CNetAddr::IsRoutable` with the predicates it is made of (`src/netbase.cpp:718-862`),
`CNetAddr::GetGroup` (`:936-993`) and `CService::GetKey` (`:1220-1228`).
-/

namespace Esbcoin

/-- `CNetAddr` (`netbase.h:45-110`): 16 bytes in network order. -/
abbrev CNetAddr := Vector UInt8 16

namespace CNetAddr

/-- `Network` (`netbase.h:35-42`). -/
inductive Network where
  | unroutable
  | ipv4
  | ipv6
  | tor
deriving DecidableEq, Repr

/-- The number of a network. -/
def Network.toByte : Network → UInt8
  | unroutable => 0
  | ipv4 => 1
  | ipv6 => 2
  | tor => 3

variable (addr : CNetAddr)

/-- `CNetAddr::GetByte` (`netbase.cpp:713-716`). -/
def getByte (n : Nat) : UInt8 := addr.toList.getD (15 - n) 0

/-- `memcmp` of the first bytes with a constant. -/
def startsWith (bytes : List UInt8) : Bool := addr.toList.take bytes.length == bytes

/-- `CNetAddr::IsIPv4` (`netbase.cpp:718-721`). -/
def isIPv4 : Bool := (CService.mk addr 0).isIPv4

/-- `CNetAddr::IsTor` (`netbase.cpp:800-803`). -/
def isTor : Bool := (CService.mk addr 0).isTor

/-- `CNetAddr::IsRFC1918` (`netbase.cpp:728-733`). -/
def isRFC1918 : Bool :=
  isIPv4 addr && (getByte addr 3 == 10 || (getByte addr 3 == 192 && getByte addr 2 == 168) ||
    (getByte addr 3 == 172 && (16 ≤ getByte addr 2 && getByte addr 2 ≤ 31)))

/-- `CNetAddr::IsRFC2544` (`netbase.cpp:735-738`). -/
def isRFC2544 : Bool :=
  isIPv4 addr && getByte addr 3 == 198 && (getByte addr 2 == 18 || getByte addr 2 == 19)

/-- `CNetAddr::IsRFC3927` (`netbase.cpp:740-743`). -/
def isRFC3927 : Bool := isIPv4 addr && (getByte addr 3 == 169 && getByte addr 2 == 254)

/-- `CNetAddr::IsRFC6598` (`netbase.cpp:745-748`). -/
def isRFC6598 : Bool :=
  isIPv4 addr && getByte addr 3 == 100 && 64 ≤ getByte addr 2 && getByte addr 2 ≤ 127

/-- `CNetAddr::IsRFC5737` (`netbase.cpp:750-755`). -/
def isRFC5737 : Bool :=
  isIPv4 addr &&
    ((getByte addr 3 == 192 && getByte addr 2 == 0 && getByte addr 1 == 2) ||
      (getByte addr 3 == 198 && getByte addr 2 == 51 && getByte addr 1 == 100) ||
      (getByte addr 3 == 203 && getByte addr 2 == 0 && getByte addr 1 == 113))

/-- `CNetAddr::IsRFC3849` (`netbase.cpp:757-760`). -/
def isRFC3849 : Bool := startsWith addr [0x20, 0x01, 0x0D, 0xB8]

/-- `CNetAddr::IsRFC3964` (`netbase.cpp:762-765`). -/
def isRFC3964 : Bool := startsWith addr [0x20, 0x02]

/-- `CNetAddr::IsRFC6052` (`netbase.cpp:767-771`). -/
def isRFC6052 : Bool := startsWith addr [0, 0x64, 0xFF, 0x9B, 0, 0, 0, 0, 0, 0, 0, 0]

/-- `CNetAddr::IsRFC4380` (`netbase.cpp:773-776`). -/
def isRFC4380 : Bool := startsWith addr [0x20, 0x01, 0, 0]

/-- `CNetAddr::IsRFC4862` (`netbase.cpp:778-782`). -/
def isRFC4862 : Bool := startsWith addr [0xFE, 0x80, 0, 0, 0, 0, 0, 0]

/-- `CNetAddr::IsRFC4193` (`netbase.cpp:784-787`). -/
def isRFC4193 : Bool := getByte addr 15 &&& 0xFE == 0xFC

/-- `CNetAddr::IsRFC6145` (`netbase.cpp:789-793`). -/
def isRFC6145 : Bool := startsWith addr [0, 0, 0, 0, 0, 0, 0, 0, 0xFF, 0xFF, 0, 0]

/-- `CNetAddr::IsRFC4843` (`netbase.cpp:795-798`). -/
def isRFC4843 : Bool :=
  getByte addr 15 == 0x20 && getByte addr 14 == 0x01 && getByte addr 13 == 0x00 &&
    getByte addr 12 &&& 0xF0 == 0x10

/-- `CNetAddr::IsLocal` (`netbase.cpp:805-817`). -/
def isLocal : Bool :=
  (isIPv4 addr && (getByte addr 3 == 127 || getByte addr 3 == 0)) ||
    startsWith addr (List.replicate 15 0 ++ [1])

/-- `CNetAddr::IsValid` (`netbase.cpp:824-857`). -/
def isValid : Bool :=
  !startsWith addr (pchIPv4.drop 3) && !startsWith addr (List.replicate 16 0) && !isRFC3849 addr &&
    !(isIPv4 addr && (addr.toList.drop 12 == [255, 255, 255, 255] ||
      addr.toList.drop 12 == [0, 0, 0, 0]))

/-- `CNetAddr::IsRoutable` (`netbase.cpp:859-862`). -/
def isRoutable : Bool :=
  isValid addr && !(isRFC1918 addr || isRFC2544 addr || isRFC3927 addr || isRFC4862 addr ||
    isRFC6598 addr || isRFC5737 addr || (isRFC4193 addr && !isTor addr) || isRFC4843 addr ||
    isLocal addr)

/-- The class, the whole bytes and what is left of the bits (`netbase.cpp:983-992`). -/
def groupOf (nClass : Network) (nStartByte nBits : Nat) : List UInt8 :=
  let whole := (List.range (nBits / 8)).map fun k => getByte addr (15 - (nStartByte + k))
  let rest := if nBits % 8 = 0 then [] else
    [getByte addr (15 - (nStartByte + nBits / 8)) ||| UInt8.ofNat (2 ^ (nBits % 8) - 1)]
  nClass.toByte :: whole ++ rest

/-- `CNetAddr::GetGroup` (`netbase.cpp:936-993`). A local address is not routable, so the class its
first branch chooses is replaced by the second. -/
def getGroup : List UInt8 :=
  if !isRoutable addr then groupOf addr .unroutable 0 0
  else if isIPv4 addr || isRFC6145 addr || isRFC6052 addr then groupOf addr .ipv4 12 16
  else if isRFC3964 addr then groupOf addr .ipv4 2 16
  else if isRFC4380 addr then
    [Network.ipv4.toByte, getByte addr 3 ^^^ 0xFF, getByte addr 2 ^^^ 0xFF]
  else if isTor addr then groupOf addr .tor 6 4
  else if startsWith addr [0x20, 0x01, 0x04, 0x70] then groupOf addr .ipv6 0 36
  else groupOf addr .ipv6 0 32

end CNetAddr

/-- `CService::GetKey` (`netbase.cpp:1220-1228`). -/
def CService.getKey (service : CService) : List UInt8 :=
  service.ip.toList ++
    [UInt8.ofNat (service.port.toNat / 0x100), UInt8.ofNat (service.port.toNat % 0x100)]

end Esbcoin
