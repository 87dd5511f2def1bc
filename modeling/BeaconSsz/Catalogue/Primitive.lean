import BeaconSsz.Schema.Descriptor

/-!
# Forms of fields

The forms that fields of records share, named for what the fields hold.
-/

namespace BeaconSsz.Catalogue

/-- One byte. -/
def uint8 : Form := .uint 1

/-- Eight bytes. -/
def uint64 : Form := .uint 8

/-- Thirty-two bytes. -/
def uint256 : Form := .uint 32

def slot : Form := uint64

def epoch : Form := uint64

def gwei : Form := uint64

def validatorIndex : Form := uint64

def committeeIndex : Form := uint64

def withdrawalIndex : Form := uint64

def participationFlags : Form := uint8

/-- Exactly so many bytes. -/
def bytes (length : UInt64) : Form := .byteVector (.fixed length)

def root : Form := bytes 32

def hash32 : Form := bytes 32

def version : Form := bytes 4

def blsPubkey : Form := bytes 48

def blsSignature : Form := bytes 96

def executionAddress : Form := bytes 20

def kzgCommitment : Form := bytes 48

def kzgProof : Form := bytes 48

/-- A record of a name. -/
def record (name : String) : Form := .container name

/-- At most as many elements as a named bound allows. -/
def listOf (element : Form) (bound : String) : Form := .list element (.named bound)

/-- As many elements as a named bound says. -/
def vectorOf (element : Form) (bound : String) : Form := .vector element (.named bound)

/-- At most as many bits as a named bound allows. -/
def bitlist (bound : String) : Form := .bitlist (.named bound)

/-- As many bits as a named bound says. -/
def bitvector (bound : String) : Form := .bitvector (.named bound)

/-- At most as many bytes as a named bound allows. -/
def byteList (bound : String) : Form := .byteList (.named bound)

/-- As many bytes as a named bound says. -/
def byteVector (bound : String) : Form := .byteVector (.named bound)

end BeaconSsz.Catalogue
