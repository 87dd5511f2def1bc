import BeaconSsz.Catalogue.Amendment
import BeaconSsz.Catalogue.Primitive

/-!
# Phase0

The records that there were at the start.
-/

namespace BeaconSsz.Catalogue

/-- What phase0 changes. -/
def phase0 : List Amendment := [
  .define ⟨"Fork", [
    ("previous_version", version),
    ("current_version", version),
    ("epoch", epoch)]⟩,
  .define ⟨"ForkData", [
    ("current_version", version),
    ("genesis_validators_root", root)]⟩,
  .define ⟨"Checkpoint", [
    ("epoch", epoch),
    ("root", root)]⟩,
  .define ⟨"Validator", [
    ("pubkey", blsPubkey),
    ("withdrawal_credentials", bytes 32),
    ("effective_balance", gwei),
    ("slashed", .boolean),
    ("activation_eligibility_epoch", epoch),
    ("activation_epoch", epoch),
    ("exit_epoch", epoch),
    ("withdrawable_epoch", epoch)]⟩,
  .define ⟨"AttestationData", [
    ("slot", slot),
    ("index", committeeIndex),
    ("beacon_block_root", root),
    ("source", record "Checkpoint"),
    ("target", record "Checkpoint")]⟩,
  .define ⟨"IndexedAttestation", [
    ("attesting_indices", listOf validatorIndex "MAX_VALIDATORS_PER_ATTESTATION"),
    ("data", record "AttestationData"),
    ("signature", blsSignature)]⟩,
  .define ⟨"PendingAttestation", [
    ("aggregation_bits", bitlist "MAX_VALIDATORS_PER_COMMITTEE"),
    ("data", record "AttestationData"),
    ("inclusion_delay", slot),
    ("proposer_index", validatorIndex)]⟩,
  .define ⟨"Eth1Data", [
    ("deposit_root", root),
    ("deposit_count", uint64),
    ("block_hash", hash32)]⟩,
  .define ⟨"HistoricalBatch", [
    ("block_roots", vectorOf root "SLOTS_PER_HISTORICAL_ROOT"),
    ("state_roots", vectorOf root "SLOTS_PER_HISTORICAL_ROOT")]⟩,
  .define ⟨"DepositMessage", [
    ("pubkey", blsPubkey),
    ("withdrawal_credentials", bytes 32),
    ("amount", gwei)]⟩,
  .define ⟨"DepositData", [
    ("pubkey", blsPubkey),
    ("withdrawal_credentials", bytes 32),
    ("amount", gwei),
    ("signature", blsSignature)]⟩,
  .define ⟨"BeaconBlockHeader", [
    ("slot", slot),
    ("proposer_index", validatorIndex),
    ("parent_root", root),
    ("state_root", root),
    ("body_root", root)]⟩,
  .define ⟨"SignedBeaconBlockHeader", [
    ("message", record "BeaconBlockHeader"),
    ("signature", blsSignature)]⟩,
  .define ⟨"SigningData", [
    ("object_root", root),
    ("domain", bytes 32)]⟩,
  .define ⟨"ProposerSlashing", [
    ("signed_header_1", record "SignedBeaconBlockHeader"),
    ("signed_header_2", record "SignedBeaconBlockHeader")]⟩,
  .define ⟨"AttesterSlashing", [
    ("attestation_1", record "IndexedAttestation"),
    ("attestation_2", record "IndexedAttestation")]⟩,
  .define ⟨"Attestation", [
    ("aggregation_bits", bitlist "MAX_VALIDATORS_PER_ATTESTATION"),
    ("data", record "AttestationData"),
    ("signature", blsSignature)]⟩,
  .define ⟨"Deposit", [
    ("proof", .vector (bytes 32) (.fixed 33)),
    ("data", record "DepositData")]⟩,
  .define ⟨"VoluntaryExit", [
    ("epoch", epoch),
    ("validator_index", validatorIndex)]⟩,
  .define ⟨"SignedVoluntaryExit", [
    ("message", record "VoluntaryExit"),
    ("signature", blsSignature)]⟩,
  .define ⟨"BeaconBlockBody", [
    ("randao_reveal", blsSignature),
    ("eth1_data", record "Eth1Data"),
    ("graffiti", bytes 32),
    ("proposer_slashings", listOf (record "ProposerSlashing") "MAX_PROPOSER_SLASHINGS"),
    ("attester_slashings", listOf (record "AttesterSlashing") "MAX_ATTESTER_SLASHINGS"),
    ("attestations", listOf (record "Attestation") "MAX_ATTESTATIONS"),
    ("deposits", listOf (record "Deposit") "MAX_DEPOSITS"),
    ("voluntary_exits", listOf (record "SignedVoluntaryExit") "MAX_VOLUNTARY_EXITS")]⟩,
  .define ⟨"BeaconBlock", [
    ("slot", slot),
    ("proposer_index", validatorIndex),
    ("parent_root", root),
    ("state_root", root),
    ("body", record "BeaconBlockBody")]⟩,
  .define ⟨"SignedBeaconBlock", [
    ("message", record "BeaconBlock"),
    ("signature", blsSignature)]⟩,
  .define ⟨"BeaconState", [
    ("genesis_time", uint64),
    ("genesis_validators_root", root),
    ("slot", slot),
    ("fork", record "Fork"),
    ("latest_block_header", record "BeaconBlockHeader"),
    ("block_roots", vectorOf root "SLOTS_PER_HISTORICAL_ROOT"),
    ("state_roots", vectorOf root "SLOTS_PER_HISTORICAL_ROOT"),
    ("historical_roots", listOf root "HISTORICAL_ROOTS_LIMIT"),
    ("eth1_data", record "Eth1Data"),
    ("eth1_data_votes", listOf (record "Eth1Data") "SLOTS_PER_ETH1_VOTING_PERIOD"),
    ("eth1_deposit_index", uint64),
    ("validators", listOf (record "Validator") "VALIDATOR_REGISTRY_LIMIT"),
    ("balances", listOf gwei "VALIDATOR_REGISTRY_LIMIT"),
    ("randao_mixes", vectorOf (bytes 32) "EPOCHS_PER_HISTORICAL_VECTOR"),
    ("slashings", vectorOf gwei "EPOCHS_PER_SLASHINGS_VECTOR"),
    ("previous_epoch_attestations",
      listOf (record "PendingAttestation") "MAX_PENDING_ATTESTATIONS"),
    ("current_epoch_attestations", listOf (record "PendingAttestation") "MAX_PENDING_ATTESTATIONS"),
    ("justification_bits", .bitvector (.fixed 4)),
    ("previous_justified_checkpoint", record "Checkpoint"),
    ("current_justified_checkpoint", record "Checkpoint"),
    ("finalized_checkpoint", record "Checkpoint")]⟩,
  .define ⟨"AggregateAndProof", [
    ("aggregator_index", validatorIndex),
    ("aggregate", record "Attestation"),
    ("selection_proof", blsSignature)]⟩,
  .define ⟨"SignedAggregateAndProof", [
    ("message", record "AggregateAndProof"),
    ("signature", blsSignature)]⟩
]

end BeaconSsz.Catalogue
