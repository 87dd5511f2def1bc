import BeaconSsz.Catalogue.Amendment
import BeaconSsz.Catalogue.Primitive

/-!
# Electra

Requests from the execution layer, and attestations across committees. Other records change
only through bounds that change at this fork.
-/

namespace BeaconSsz.Catalogue

/-- What electra changes. -/
def electra : List Amendment := [
  .define ⟨"DepositRequest", [
    ("pubkey", blsPubkey),
    ("withdrawal_credentials", bytes 32),
    ("amount", gwei),
    ("signature", blsSignature),
    ("index", uint64)]⟩,
  .define ⟨"WithdrawalRequest", [
    ("source_address", executionAddress),
    ("validator_pubkey", blsPubkey),
    ("amount", gwei)]⟩,
  .define ⟨"ConsolidationRequest", [
    ("source_address", executionAddress),
    ("source_pubkey", blsPubkey),
    ("target_pubkey", blsPubkey)]⟩,
  .define ⟨"ExecutionRequests", [
    ("deposits", listOf (record "DepositRequest") "MAX_DEPOSIT_REQUESTS_PER_PAYLOAD"),
    ("withdrawals", listOf (record "WithdrawalRequest") "MAX_WITHDRAWAL_REQUESTS_PER_PAYLOAD"),
    ("consolidations",
      listOf (record "ConsolidationRequest") "MAX_CONSOLIDATION_REQUESTS_PER_PAYLOAD")]⟩,
  .define ⟨"SingleAttestation", [
    ("committee_index", committeeIndex),
    ("attester_index", validatorIndex),
    ("data", record "AttestationData"),
    ("signature", blsSignature)]⟩,
  .define ⟨"PendingDeposit", [
    ("pubkey", blsPubkey),
    ("withdrawal_credentials", bytes 32),
    ("amount", gwei),
    ("signature", blsSignature),
    ("slot", slot)]⟩,
  .define ⟨"PendingPartialWithdrawal", [
    ("validator_index", validatorIndex),
    ("amount", gwei),
    ("withdrawable_epoch", epoch)]⟩,
  .define ⟨"PendingConsolidation", [
    ("source_index", validatorIndex),
    ("target_index", validatorIndex)]⟩,
  .revise "Attestation" [
    .add "committee_bits" (bitvector "MAX_COMMITTEES_PER_SLOT")],
  .revise "BeaconBlockBody" [
    .add "execution_requests" (record "ExecutionRequests")],
  .revise "BeaconState" [
    .add "deposit_requests_start_index" uint64,
    .add "deposit_balance_to_consume" gwei,
    .add "exit_balance_to_consume" gwei,
    .add "earliest_exit_epoch" epoch,
    .add "consolidation_balance_to_consume" gwei,
    .add "earliest_consolidation_epoch" epoch,
    .add "pending_deposits" (listOf (record "PendingDeposit") "PENDING_DEPOSITS_LIMIT"),
    .add "pending_partial_withdrawals"
      (listOf (record "PendingPartialWithdrawal") "PENDING_PARTIAL_WITHDRAWALS_LIMIT"),
    .add "pending_consolidations"
      (listOf (record "PendingConsolidation") "PENDING_CONSOLIDATIONS_LIMIT")]
]

end BeaconSsz.Catalogue
