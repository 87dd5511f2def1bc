import BeaconSsz.Catalogue.Amendment
import BeaconSsz.Catalogue.Primitive

/-!
# Deneb

Blobs.
-/

namespace BeaconSsz.Catalogue

/-- What deneb changes. -/
def deneb : List Amendment := [
  .revise "ExecutionPayload" [
    .add "blob_gas_used" uint64,
    .add "excess_blob_gas" uint64],
  .revise "ExecutionPayloadHeader" [
    .add "blob_gas_used" uint64,
    .add "excess_blob_gas" uint64],
  .revise "BeaconBlockBody" [
    .add "blob_kzg_commitments" (listOf kzgCommitment "MAX_BLOB_COMMITMENTS_PER_BLOCK")],
  .define ⟨"BlobSidecar", [
    ("index", uint64),
    ("blob", byteVector "BYTES_PER_BLOB"),
    ("kzg_commitment", kzgCommitment),
    ("kzg_proof", kzgProof),
    ("signed_block_header", record "SignedBeaconBlockHeader"),
    ("kzg_commitment_inclusion_proof",
      vectorOf (bytes 32) "KZG_COMMITMENT_INCLUSION_PROOF_DEPTH")]⟩,
  .define ⟨"BlobIdentifier", [
    ("block_root", root),
    ("index", uint64)]⟩
]

end BeaconSsz.Catalogue
