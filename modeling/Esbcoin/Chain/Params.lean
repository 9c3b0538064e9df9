import Esbcoin.Primitives

/-!
# Consensus parameters

The fields of `CChainParams` (`src/chainparams.h`, `src/chainparams.cpp:88-345`) that the
modelled functions read, and the protocol constants of `src/version.h`. Theorems take any
`CChainParams`; the networks of the source are `mainParams`, `testNetParams`,
`regTestParams` and `unitTestParams`, each written as the source does, as an update of the
network it derives from. The hash of the regression-test genesis block is an argument: the
source computes it and does not state it.
-/

namespace Esbcoin

/-- `CBaseChainParams::Network` (`chainparamsbase.h`). -/
inductive Network where
  | main
  | testnet
  | regtest
  | unittest
deriving DecidableEq, Repr

/-- `CChainParams` (`chainparams.h`). -/
structure CChainParams where
  networkID : Network
  hashGenesisBlock : UInt256
  /-- `bnProofOfWorkLimit`. -/
  proofOfWorkLimit : UInt256
  /-- `nMaxReorganizationDepth`. -/
  maxReorganizationDepth : Int
  /-- `nTargetSpacing`. -/
  targetSpacing : Int
  /-- `nMaturity`, `COINBASE_MATURITY`. -/
  maturity : Int
  /-- `nMaxMoneyOut`. -/
  maxMoneyOut : Int
  /-- `nLastPOWBlock`, `LAST_POW_BLOCK`. -/
  lastPOWBlock : Int
  /-- `fSkipProofOfWorkCheck`. -/
  skipProofOfWorkCheck : Bool
deriving Repr

/-- `CMainParams::CMainParams` (`chainparams.cpp:91-196`). -/
def mainParams : CChainParams where
  networkID := .main
  hashGenesisBlock := 0x00000cccb0efc9e2bb85f7a30d7069e8673dbbda121c3600be367294acbd4e75
  proofOfWorkLimit := (~~~(0 : UInt256)) >>> 20
  maxReorganizationDepth := 100
  targetSpacing := 2 * 60
  maturity := 40
  maxMoneyOut := 25481245 * COIN
  lastPOWBlock := 200
  skipProofOfWorkCheck := true

/-- `CTestNetParams::CTestNetParams` (`chainparams.cpp:210-268`). -/
def testNetParams : CChainParams :=
  { mainParams with
    networkID := .testnet
    hashGenesisBlock := 0x019a701040d795514ea77eda681e74f8de73afdb1b39d541fc0c697585b878dc
    proofOfWorkLimit := (~~~(0 : UInt256)) >>> 1
    targetSpacing := 1 * 60
    maturity := 15
    maxMoneyOut := 1000000000 * COIN }

/-- `CRegTestParams::CRegTestParams` (`chainparams.cpp:282-319`). -/
def regTestParams (hashGenesisBlock : UInt256) : CChainParams :=
  { testNetParams with
    networkID := .regtest
    hashGenesisBlock
    targetSpacing := 1 * 60
    proofOfWorkLimit := (~~~(0 : UInt256)) >>> 1 }

/-- `CUnitTestParams::CUnitTestParams` (`chainparams.cpp:333-345`). -/
def unitTestParams : CChainParams := { mainParams with networkID := .unittest }

/-- `MIN_PEER_PROTO_VERSION_BEFORE_ENFORCEMENT` (`version.h:19`). -/
def MIN_PEER_PROTO_VERSION_BEFORE_ENFORCEMENT : Int := 70223

/-- `CONSENSUS_FORK_REWARD_UPDATE_PROTOCOL` (`version.h:22`). -/
def CONSENSUS_FORK_REWARD_UPDATE_PROTOCOL : Int := 70225

/-- `CONSENSUS_FORK_REWARD_UPDATE_BLOCK` (`version.h:23`). -/
def CONSENSUS_FORK_REWARD_UPDATE_BLOCK : Int := 685000

/-- `CONSENSUS_FORK_PROTO` (`version.h:25`). -/
def CONSENSUS_FORK_PROTO : Int := 70223

/-- `ActiveProtocol` (`main.cpp:5536-5542`) on a node whose active chain has height
`chainHeight`. -/
def activeProtocol (chainHeight : Int) : Int :=
  if chainHeight > CONSENSUS_FORK_REWARD_UPDATE_BLOCK then
    CONSENSUS_FORK_REWARD_UPDATE_PROTOCOL
  else
    MIN_PEER_PROTO_VERSION_BEFORE_ENFORCEMENT

/-- Both protocols are past the fork that `CONSENSUS_FORK_PROTO` marks, so a test against it
never depends on the active chain. -/
theorem consensusForkProto_le_activeProtocol (chainHeight : Int) :
    CONSENSUS_FORK_PROTO ≤ activeProtocol chainHeight := by
  unfold activeProtocol
  split <;> decide

end Esbcoin
