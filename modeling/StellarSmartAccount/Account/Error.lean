import StellarSmartAccount.Initializable
import StellarSmartAccount.Storage

/-! # Error codes of the smart account -/

namespace StellarSmartAccount

inductive Error where
  | alreadyInitialized
  | notInitialized
  | storageEntryNotFound
  | storageEntryAlreadyExists
  | noSigners
  | signerAlreadyExists
  | signerNotFound
  | signerExpired
  | cannotRevokeAdminSigner
  | matchingSignatureNotFound
  | signatureVerificationFailed
  | invalidProofType
  | noProofsInAuthEntry
  | insufficientPermissions
  | insufficientPermissionsOnCreation
  | invalidPolicy
  | invalidTimeRange
  | invalidNotAfterTime
  | notFound
  deriving DecidableEq

namespace Error

def code : Error → UInt32
  | .alreadyInitialized => 0
  | .notInitialized => 1
  | .storageEntryNotFound => 10
  | .storageEntryAlreadyExists => 11
  | .noSigners => 20
  | .signerAlreadyExists => 21
  | .signerNotFound => 22
  | .signerExpired => 23
  | .cannotRevokeAdminSigner => 24
  | .matchingSignatureNotFound => 40
  | .signatureVerificationFailed => 41
  | .invalidProofType => 42
  | .noProofsInAuthEntry => 43
  | .insufficientPermissions => 60
  | .insufficientPermissionsOnCreation => 61
  | .invalidPolicy => 80
  | .invalidTimeRange => 81
  | .invalidNotAfterTime => 82
  | .notFound => 100

def ofInitializable : InitializableError → Error
  | .alreadyInitialized => .alreadyInitialized
  | .notInitialized => .notInitialized

def ofStorage : StorageError → Error
  | .notFound => .storageEntryNotFound
  | .alreadyExists => .storageEntryAlreadyExists

end Error
end StellarSmartAccount
