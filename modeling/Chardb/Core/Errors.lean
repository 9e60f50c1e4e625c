import Mathlib.Tactic.TypeStar

/-!
# Errors

`CdbErrorCode` is the locked list of codes and `CdbError` what the stores throw.
`Thrown` is everything a store call can throw: one of these, or SQLite refusing a
statement because a constraint of the table fails.
-/

namespace Chardb

/-- The locked error codes, `CDB_` dropped. -/
inductive CdbErrorCode
  | staleEpoch
  | crossPartition
  | crossPartitionBatch
  | interactiveTxnUnsupported
  | nonlocalUnique
  | nonlocalFk
  | ambiguousColocation
  | policyUnknownRoot
  | partitionContractChanged
  | scatterNotIndex
  | mutIdCollision
  | uniqueViolation
  | mutationOutcomeUnknown
  | oplogPressure
  | authProfileIncompatible
  | reservedTableName
  | noIntentForRawSql
  | txnAbortedEviction
  | shardsChanged
  | rateLimited
  | callerDenied
  | unsupportedFeature
  | shardUnavailable
  | catalogUnavailable
  | forbidden
  | gsiStrictRequires2pc
  | vectorizeIndexMissing
  | vectorizeDimMismatch
  | streamAborted
  | distinctCapExceeded
  | invariant
  | reshardPhaseMismatch
  | refNotFound
  | dtNotImplemented
  | dtAborted
  | authNotBound
  | authCrossPartitionTx
  | authGsiMiss
  | notCdbTable
  | invalidArgs
  | invalidTenant
  | invalidSelf
  | invalidColumn
  | invalidPartition
  | ambiguousTenant
  | missingTenantFk
  | policyConflict
  | forbiddenColumn
  | tenantOverride
  | selfOverride
  deriving DecidableEq

/-- The code as it goes over the wire. -/
def CdbErrorCode.text : CdbErrorCode → String
  | .staleEpoch => "CDB_STALE_EPOCH"
  | .crossPartition => "CDB_CROSS_PARTITION"
  | .crossPartitionBatch => "CDB_CROSS_PARTITION_BATCH"
  | .interactiveTxnUnsupported => "CDB_INTERACTIVE_TXN_UNSUPPORTED"
  | .nonlocalUnique => "CDB_NONLOCAL_UNIQUE"
  | .nonlocalFk => "CDB_NONLOCAL_FK"
  | .ambiguousColocation => "CDB_AMBIGUOUS_COLOCATION"
  | .policyUnknownRoot => "CDB_POLICY_UNKNOWN_ROOT"
  | .partitionContractChanged => "CDB_PARTITION_CONTRACT_CHANGED"
  | .scatterNotIndex => "CDB_SCATTER_NOT_INDEX"
  | .mutIdCollision => "CDB_MUT_ID_COLLISION"
  | .uniqueViolation => "CDB_UNIQUE_VIOLATION"
  | .mutationOutcomeUnknown => "CDB_MUTATION_OUTCOME_UNKNOWN"
  | .oplogPressure => "CDB_OPLOG_PRESSURE"
  | .authProfileIncompatible => "CDB_AUTH_PROFILE_INCOMPATIBLE"
  | .reservedTableName => "CDB_RESERVED_TABLE_NAME"
  | .noIntentForRawSql => "CDB_NO_INTENT_FOR_RAW_SQL"
  | .txnAbortedEviction => "CDB_TXN_ABORTED_EVICTION"
  | .shardsChanged => "CDB_SHARDS_CHANGED"
  | .rateLimited => "CDB_RATE_LIMITED"
  | .callerDenied => "CDB_CALLER_DENIED"
  | .unsupportedFeature => "CDB_UNSUPPORTED_FEATURE"
  | .shardUnavailable => "CDB_SHARD_UNAVAILABLE"
  | .catalogUnavailable => "CDB_CATALOG_UNAVAILABLE"
  | .forbidden => "CDB_FORBIDDEN"
  | .gsiStrictRequires2pc => "CDB_GSI_STRICT_REQUIRES_2PC"
  | .vectorizeIndexMissing => "CDB_VECTORIZE_INDEX_MISSING"
  | .vectorizeDimMismatch => "CDB_VECTORIZE_DIM_MISMATCH"
  | .streamAborted => "CDB_STREAM_ABORTED"
  | .distinctCapExceeded => "CDB_DISTINCT_CAP_EXCEEDED"
  | .invariant => "CDB_INVARIANT"
  | .reshardPhaseMismatch => "CDB_RESHARD_PHASE_MISMATCH"
  | .refNotFound => "CDB_REF_NOT_FOUND"
  | .dtNotImplemented => "CDB_DT_NOT_IMPLEMENTED"
  | .dtAborted => "CDB_DT_ABORTED"
  | .authNotBound => "CDB_AUTH_NOT_BOUND"
  | .authCrossPartitionTx => "CDB_AUTH_CROSS_PARTITION_TX"
  | .authGsiMiss => "CDB_AUTH_GSI_MISS"
  | .notCdbTable => "CDB_NOT_CDB_TABLE"
  | .invalidArgs => "CDB_INVALID_ARGS"
  | .invalidTenant => "CDB_INVALID_TENANT"
  | .invalidSelf => "CDB_INVALID_SELF"
  | .invalidColumn => "CDB_INVALID_COLUMN"
  | .invalidPartition => "CDB_INVALID_PARTITION"
  | .ambiguousTenant => "CDB_AMBIGUOUS_TENANT"
  | .missingTenantFk => "CDB_MISSING_TENANT_FK"
  | .policyConflict => "CDB_POLICY_CONFLICT"
  | .forbiddenColumn => "CDB_FORBIDDEN_COLUMN"
  | .tenantOverride => "CDB_TENANT_OVERRIDE"
  | .selfOverride => "CDB_SELF_OVERRIDE"

/-- Every code. -/
def CdbErrorCode.all : List CdbErrorCode :=
  [.staleEpoch, .crossPartition, .crossPartitionBatch, .interactiveTxnUnsupported,
    .nonlocalUnique, .nonlocalFk, .ambiguousColocation, .policyUnknownRoot,
    .partitionContractChanged, .scatterNotIndex, .mutIdCollision, .uniqueViolation,
    .mutationOutcomeUnknown, .oplogPressure, .authProfileIncompatible, .reservedTableName,
    .noIntentForRawSql, .txnAbortedEviction, .shardsChanged, .rateLimited, .callerDenied,
    .unsupportedFeature, .shardUnavailable, .catalogUnavailable, .forbidden,
    .gsiStrictRequires2pc, .vectorizeIndexMissing, .vectorizeDimMismatch, .streamAborted,
    .distinctCapExceeded, .invariant, .reshardPhaseMismatch, .refNotFound, .dtNotImplemented,
    .dtAborted, .authNotBound, .authCrossPartitionTx, .authGsiMiss, .notCdbTable, .invalidArgs,
    .invalidTenant, .invalidSelf, .invalidColumn, .invalidPartition, .ambiguousTenant,
    .missingTenantFk, .policyConflict, .forbiddenColumn, .tenantOverride, .selfOverride]

/-- The error class thrown across the store surfaces. -/
structure CdbError where
  code : CdbErrorCode
  message : String
  hint : Option String := none
  retryAfterMs : Option Nat := none
  deriving DecidableEq

/-- What a store call can throw. -/
inductive Thrown
  /-- An error the code raises. -/
  | cdb (error : CdbError)
  /-- SQLite refuses a statement: a key, `CHECK` or trigger constraint of `table` fails. -/
  | constraint (table : String)
  /-- A plain JavaScript `Error`. -/
  | error (message : String)
  | typeError (message : String)
  deriving DecidableEq

/-- The code of a `CdbError`. -/
def Thrown.code? : Thrown → Option CdbErrorCode
  | .cdb err => some err.code
  | .constraint _ => none
  | .error _ => none
  | .typeError _ => none

def invalidArgs (message : String) : Thrown := .cdb { code := .invalidArgs, message }

def phaseMismatch (message : String) : Thrown := .cdb { code := .reshardPhaseMismatch, message }

def invariantError (message : String) : Thrown := .cdb { code := .invariant, message }

def staleEpoch (message : String) : Thrown := .cdb { code := .staleEpoch, message }

end Chardb
