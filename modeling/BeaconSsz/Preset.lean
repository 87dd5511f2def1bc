import BeaconSsz.Text.Quoted

/-!
# Presets

A preset fixes the numbers that bound the records: one set for the main network, and a small one
for testing.
-/

namespace BeaconSsz

/-- The numbers of a preset. -/
structure Parameters where
  maxValidatorsPerCommittee : Nat
  maxCommitteesPerSlot : Nat
  slotsPerEpoch : Nat
  slotsPerHistoricalRoot : Nat
  historicalRootsLimit : Nat
  epochsPerEth1VotingPeriod : Nat
  validatorRegistryLimit : Nat
  epochsPerHistoricalVector : Nat
  epochsPerSlashingsVector : Nat
  maxProposerSlashings : Nat
  maxAttesterSlashings : Nat
  maxAttestations : Nat
  maxDeposits : Nat
  maxVoluntaryExits : Nat
  syncCommitteeSize : Nat
  maxBytesPerTransaction : Nat
  maxTransactionsPerPayload : Nat
  bytesPerLogsBloom : Nat
  maxExtraDataBytes : Nat
  maxBlsToExecutionChanges : Nat
  maxWithdrawalsPerPayload : Nat
  maxBlobCommitmentsPerBlock : Nat
  fieldElementsPerBlob : Nat
  kzgCommitmentInclusionProofDepth : Nat
  maxAttesterSlashingsElectra : Nat
  maxAttestationsElectra : Nat
  maxDepositRequestsPerPayload : Nat
  maxWithdrawalRequestsPerPayload : Nat
  maxConsolidationRequestsPerPayload : Nat
  pendingDepositsLimit : Nat
  pendingPartialWithdrawalsLimit : Nat
  pendingConsolidationsLimit : Nat

/-- A set of numbers, by name. -/
inductive Preset where
  | mainnet
  | minimal
  deriving DecidableEq

namespace Preset

/-- The name of a preset. -/
def name : Preset → String
  | mainnet => "mainnet"
  | minimal => "minimal"

/-- Every preset. -/
def all : List Preset := [mainnet, minimal]

/-- The preset of a name. -/
def parse? (text : String) : Option Preset :=
  all.find? fun preset => preset.name == text

/-- What is said of a text that names no preset. -/
def unknownMessage (text : String) : String :=
  "unknown preset " ++ Text.quoted text

/-- The numbers of a preset. -/
def parameters : Preset → Parameters
  | mainnet => {
    maxValidatorsPerCommittee := 2048
    maxCommitteesPerSlot := 64
    slotsPerEpoch := 32
    slotsPerHistoricalRoot := 8192
    historicalRootsLimit := 16777216
    epochsPerEth1VotingPeriod := 64
    validatorRegistryLimit := 1099511627776
    epochsPerHistoricalVector := 65536
    epochsPerSlashingsVector := 8192
    maxProposerSlashings := 16
    maxAttesterSlashings := 2
    maxAttestations := 128
    maxDeposits := 16
    maxVoluntaryExits := 16
    syncCommitteeSize := 512
    maxBytesPerTransaction := 1073741824
    maxTransactionsPerPayload := 1048576
    bytesPerLogsBloom := 256
    maxExtraDataBytes := 32
    maxBlsToExecutionChanges := 16
    maxWithdrawalsPerPayload := 16
    maxBlobCommitmentsPerBlock := 4096
    fieldElementsPerBlob := 4096
    kzgCommitmentInclusionProofDepth := 17
    maxAttesterSlashingsElectra := 1
    maxAttestationsElectra := 8
    maxDepositRequestsPerPayload := 8192
    maxWithdrawalRequestsPerPayload := 16
    maxConsolidationRequestsPerPayload := 2
    pendingDepositsLimit := 134217728
    pendingPartialWithdrawalsLimit := 134217728
    pendingConsolidationsLimit := 262144 }
  | minimal => {
    maxValidatorsPerCommittee := 2048
    maxCommitteesPerSlot := 4
    slotsPerEpoch := 8
    slotsPerHistoricalRoot := 64
    historicalRootsLimit := 16777216
    epochsPerEth1VotingPeriod := 4
    validatorRegistryLimit := 1099511627776
    epochsPerHistoricalVector := 64
    epochsPerSlashingsVector := 64
    maxProposerSlashings := 16
    maxAttesterSlashings := 2
    maxAttestations := 128
    maxDeposits := 16
    maxVoluntaryExits := 16
    syncCommitteeSize := 32
    maxBytesPerTransaction := 1073741824
    maxTransactionsPerPayload := 1048576
    bytesPerLogsBloom := 256
    maxExtraDataBytes := 32
    maxBlsToExecutionChanges := 16
    maxWithdrawalsPerPayload := 4
    maxBlobCommitmentsPerBlock := 32
    fieldElementsPerBlob := 4096
    kzgCommitmentInclusionProofDepth := 10
    maxAttesterSlashingsElectra := 1
    maxAttestationsElectra := 8
    maxDepositRequestsPerPayload := 4
    maxWithdrawalRequestsPerPayload := 2
    maxConsolidationRequestsPerPayload := 2
    pendingDepositsLimit := 134217728
    pendingPartialWithdrawalsLimit := 64
    pendingConsolidationsLimit := 64 }

end Preset

end BeaconSsz
