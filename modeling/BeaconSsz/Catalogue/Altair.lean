import BeaconSsz.Catalogue.Amendment
import BeaconSsz.Catalogue.Primitive

/-!
# Altair

Sync committees, and flags of participation in the place of pending attestations.
-/

namespace BeaconSsz.Catalogue

/-- What altair changes. -/
def altair : List Amendment := [
  .define ⟨"SyncAggregate", [
    ("sync_committee_bits", bitvector "SYNC_COMMITTEE_SIZE"),
    ("sync_committee_signature", blsSignature)]⟩,
  .define ⟨"SyncCommittee", [
    ("pubkeys", vectorOf blsPubkey "SYNC_COMMITTEE_SIZE"),
    ("aggregate_pubkey", blsPubkey)]⟩,
  .define ⟨"SyncCommitteeMessage", [
    ("slot", slot),
    ("beacon_block_root", root),
    ("validator_index", validatorIndex),
    ("signature", blsSignature)]⟩,
  .define ⟨"SyncCommitteeContribution", [
    ("slot", slot),
    ("beacon_block_root", root),
    ("subcommittee_index", uint64),
    ("aggregation_bits", bitvector "SYNC_SUBCOMMITTEE_SIZE"),
    ("signature", blsSignature)]⟩,
  .define ⟨"ContributionAndProof", [
    ("aggregator_index", validatorIndex),
    ("contribution", record "SyncCommitteeContribution"),
    ("selection_proof", blsSignature)]⟩,
  .define ⟨"SignedContributionAndProof", [
    ("message", record "ContributionAndProof"),
    ("signature", blsSignature)]⟩,
  .revise "BeaconBlockBody" [
    .add "sync_aggregate" (record "SyncAggregate")],
  .revise "BeaconState" [
    .replace "previous_epoch_attestations" "previous_epoch_participation"
      (listOf participationFlags "VALIDATOR_REGISTRY_LIMIT"),
    .replace "current_epoch_attestations" "current_epoch_participation"
      (listOf participationFlags "VALIDATOR_REGISTRY_LIMIT"),
    .add "inactivity_scores" (listOf uint64 "VALIDATOR_REGISTRY_LIMIT"),
    .add "current_sync_committee" (record "SyncCommittee"),
    .add "next_sync_committee" (record "SyncCommittee")]
]

end BeaconSsz.Catalogue
