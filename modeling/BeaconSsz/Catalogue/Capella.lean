import BeaconSsz.Catalogue.Amendment
import BeaconSsz.Catalogue.Primitive

/-!
# Capella

Withdrawals, and summaries of history.
-/

namespace BeaconSsz.Catalogue

/-- What capella changes. -/
def capella : List Amendment := [
  .define ⟨"Withdrawal", [
    ("index", withdrawalIndex),
    ("validator_index", validatorIndex),
    ("address", executionAddress),
    ("amount", gwei)]⟩,
  .define ⟨"BLSToExecutionChange", [
    ("validator_index", validatorIndex),
    ("from_bls_pubkey", blsPubkey),
    ("to_execution_address", executionAddress)]⟩,
  .define ⟨"SignedBLSToExecutionChange", [
    ("message", record "BLSToExecutionChange"),
    ("signature", blsSignature)]⟩,
  .define ⟨"HistoricalSummary", [
    ("block_summary_root", root),
    ("state_summary_root", root)]⟩,
  .revise "ExecutionPayload" [
    .add "withdrawals" (listOf (record "Withdrawal") "MAX_WITHDRAWALS_PER_PAYLOAD")],
  .revise "ExecutionPayloadHeader" [
    .add "withdrawals_root" root],
  .revise "BeaconBlockBody" [
    .add "bls_to_execution_changes"
      (listOf (record "SignedBLSToExecutionChange") "MAX_BLS_TO_EXECUTION_CHANGES")],
  .revise "BeaconState" [
    .add "next_withdrawal_index" withdrawalIndex,
    .add "next_withdrawal_validator_index" validatorIndex,
    .add "historical_summaries" (listOf (record "HistoricalSummary") "HISTORICAL_ROOTS_LIMIT")]
]

end BeaconSsz.Catalogue
