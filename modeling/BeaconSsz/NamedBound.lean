import BeaconSsz.Fork
import BeaconSsz.Preset
import BeaconSsz.Trap

/-!
# Named bounds

Records bound their lists by names. What a name stands for depends on the preset, and at some
forks it changes: in force at a fork is the latest entry for the name that is not younger.
-/

namespace BeaconSsz

/-- How many subnets share a sync committee. -/
def syncSubnetCount : Nat := 4

/-- The bytes of a field element of a blob. -/
def bytesPerFieldElement : Nat := 32

/-- What a name stands for from a fork on. -/
structure NamedBound where
  name : String
  since : Fork
  value : Parameters → Nat

/-- Every named bound; the entries for one name are in the order of their forks. -/
def namedBounds : List NamedBound := [
  ⟨"MAX_VALIDATORS_PER_COMMITTEE", .phase0, fun p => p.maxValidatorsPerCommittee⟩,
  ⟨"MAX_VALIDATORS_PER_ATTESTATION", .phase0, fun p => p.maxValidatorsPerCommittee⟩,
  ⟨"MAX_VALIDATORS_PER_ATTESTATION", .electra,
    fun p => p.maxValidatorsPerCommittee * p.maxCommitteesPerSlot⟩,
  ⟨"MAX_COMMITTEES_PER_SLOT", .phase0, fun p => p.maxCommitteesPerSlot⟩,
  ⟨"SLOTS_PER_HISTORICAL_ROOT", .phase0, fun p => p.slotsPerHistoricalRoot⟩,
  ⟨"HISTORICAL_ROOTS_LIMIT", .phase0, fun p => p.historicalRootsLimit⟩,
  ⟨"SLOTS_PER_ETH1_VOTING_PERIOD", .phase0,
    fun p => p.epochsPerEth1VotingPeriod * p.slotsPerEpoch⟩,
  ⟨"VALIDATOR_REGISTRY_LIMIT", .phase0, fun p => p.validatorRegistryLimit⟩,
  ⟨"EPOCHS_PER_HISTORICAL_VECTOR", .phase0, fun p => p.epochsPerHistoricalVector⟩,
  ⟨"EPOCHS_PER_SLASHINGS_VECTOR", .phase0, fun p => p.epochsPerSlashingsVector⟩,
  ⟨"MAX_PENDING_ATTESTATIONS", .phase0, fun p => p.maxAttestations * p.slotsPerEpoch⟩,
  ⟨"MAX_PROPOSER_SLASHINGS", .phase0, fun p => p.maxProposerSlashings⟩,
  ⟨"MAX_ATTESTER_SLASHINGS", .phase0, fun p => p.maxAttesterSlashings⟩,
  ⟨"MAX_ATTESTER_SLASHINGS", .electra, fun p => p.maxAttesterSlashingsElectra⟩,
  ⟨"MAX_ATTESTATIONS", .phase0, fun p => p.maxAttestations⟩,
  ⟨"MAX_ATTESTATIONS", .electra, fun p => p.maxAttestationsElectra⟩,
  ⟨"MAX_DEPOSITS", .phase0, fun p => p.maxDeposits⟩,
  ⟨"MAX_VOLUNTARY_EXITS", .phase0, fun p => p.maxVoluntaryExits⟩,
  ⟨"SYNC_COMMITTEE_SIZE", .altair, fun p => p.syncCommitteeSize⟩,
  ⟨"SYNC_SUBCOMMITTEE_SIZE", .altair, fun p => p.syncCommitteeSize / syncSubnetCount⟩,
  ⟨"MAX_BYTES_PER_TRANSACTION", .bellatrix, fun p => p.maxBytesPerTransaction⟩,
  ⟨"MAX_TRANSACTIONS_PER_PAYLOAD", .bellatrix, fun p => p.maxTransactionsPerPayload⟩,
  ⟨"BYTES_PER_LOGS_BLOOM", .bellatrix, fun p => p.bytesPerLogsBloom⟩,
  ⟨"MAX_EXTRA_DATA_BYTES", .bellatrix, fun p => p.maxExtraDataBytes⟩,
  ⟨"MAX_BLS_TO_EXECUTION_CHANGES", .capella, fun p => p.maxBlsToExecutionChanges⟩,
  ⟨"MAX_WITHDRAWALS_PER_PAYLOAD", .capella, fun p => p.maxWithdrawalsPerPayload⟩,
  ⟨"MAX_BLOB_COMMITMENTS_PER_BLOCK", .deneb, fun p => p.maxBlobCommitmentsPerBlock⟩,
  ⟨"KZG_COMMITMENT_INCLUSION_PROOF_DEPTH", .deneb, fun p => p.kzgCommitmentInclusionProofDepth⟩,
  ⟨"BYTES_PER_BLOB", .deneb, fun p => p.fieldElementsPerBlob * bytesPerFieldElement⟩,
  ⟨"MAX_DEPOSIT_REQUESTS_PER_PAYLOAD", .electra, fun p => p.maxDepositRequestsPerPayload⟩,
  ⟨"MAX_WITHDRAWAL_REQUESTS_PER_PAYLOAD", .electra, fun p => p.maxWithdrawalRequestsPerPayload⟩,
  ⟨"MAX_CONSOLIDATION_REQUESTS_PER_PAYLOAD", .electra,
    fun p => p.maxConsolidationRequestsPerPayload⟩,
  ⟨"PENDING_DEPOSITS_LIMIT", .electra, fun p => p.pendingDepositsLimit⟩,
  ⟨"PENDING_PARTIAL_WITHDRAWALS_LIMIT", .electra, fun p => p.pendingPartialWithdrawalsLimit⟩,
  ⟨"PENDING_CONSOLIDATIONS_LIMIT", .electra, fun p => p.pendingConsolidationsLimit⟩
]

/-- What a name stands for at a fork, under a preset. There is no answer for a name that is not
known, or not known yet. -/
def resolveBound (preset : Preset) (fork : Fork) (name : String) : Option UInt64 := do
  let entries := namedBounds.filter fun entry => entry.name == name && entry.since ≤ fork
  let entry ← entries.getLast?
  let value := entry.value preset.parameters
  if value < wordLimit then return UInt64.ofNat value else none

end BeaconSsz
