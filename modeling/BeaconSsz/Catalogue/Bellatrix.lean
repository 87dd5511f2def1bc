import BeaconSsz.Catalogue.Amendment
import BeaconSsz.Catalogue.Primitive

/-!
# Bellatrix

Execution payloads.
-/

namespace BeaconSsz.Catalogue

/-- A transaction is opaque here. -/
def transaction : Form := byteList "MAX_BYTES_PER_TRANSACTION"

/-- The leading fields shared by the payload and its header. -/
def executionFields : List (String × Form) := [
  ("parent_hash", hash32),
  ("fee_recipient", executionAddress),
  ("state_root", bytes 32),
  ("receipts_root", bytes 32),
  ("logs_bloom", byteVector "BYTES_PER_LOGS_BLOOM"),
  ("prev_randao", bytes 32),
  ("block_number", uint64),
  ("gas_limit", uint64),
  ("gas_used", uint64),
  ("timestamp", uint64),
  ("extra_data", byteList "MAX_EXTRA_DATA_BYTES"),
  ("base_fee_per_gas", uint256),
  ("block_hash", hash32)
]

/-- What bellatrix changes. -/
def bellatrix : List Amendment := [
  .define ⟨"ExecutionPayload", executionFields ++ [
    ("transactions", listOf transaction "MAX_TRANSACTIONS_PER_PAYLOAD")]⟩,
  .define ⟨"ExecutionPayloadHeader", executionFields ++ [
    ("transactions_root", root)]⟩,
  .revise "BeaconBlockBody" [
    .add "execution_payload" (record "ExecutionPayload")],
  .revise "BeaconState" [
    .add "latest_execution_payload_header" (record "ExecutionPayloadHeader")]
]

end BeaconSsz.Catalogue
