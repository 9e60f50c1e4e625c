import Chardb.Core.Canonical
import Chardb.Core.Vshard
import Chardb.Policy.TablePolicy

/-!
# The migration journal

The journal that is packaged with a Worker has contiguous versions, each with its SQL and the digest
of it. `migrationDigestAt` is the digest of a prefix of the journal, and
`pendingMigrations` the suffix after a stored version.
-/

namespace Chardb.Schema

open Chardb.Lib

section
variable {ν : Type} [JsNumber ν]

/-- A migration; its resource descriptors stay the JSON that the digest reads. -/
structure ChardbMigration (ν : Type) where
  version : Int
  name : String
  statements : List String
  catalogStatements : List String
  resources : List (Json ν)
  digest : String

/-- `[version, name, digest]` of each migration. -/
def digestEntries (migrations : List (ChardbMigration ν)) : Json ν :=
  .arr (migrations.map fun m => .arr [.int m.version, .str m.name, .str m.digest])

def MAX_MIGRATIONS : Nat := 1024

/-- A journal, as `defineMigrations` builds it. -/
structure ChardbMigrationJournal (sha256Hex : String → String) (ν : Type) [JsNumber ν] where
  version : Int
  digest : String
  migrations : List (ChardbMigration ν)
  version_eq : version = migrations.length
  digest_eq : digest = stableHashHex sha256Hex (digestEntries migrations)
  contiguous : ∀ (i : Nat) m, migrations[i]? = some m → m.version = i + 1
  length_le : migrations.length ≤ MAX_MIGRATIONS

/-! ## Reading a journal -/

def decimal (i : Int) : String := String.ofList (intText i)

def ensure (p : Prop) [Decidable p] (e : Thrown) : Except Thrown Unit := if p then .ok () else .error e

/-- `/^[a-z0-9][a-z0-9_-]{0,127}$/`. -/
def isMigrationName (s : String) : Bool :=
  isIdOver (fun c => c.isAlphanum || c == '_' || c == '-') s && s.toList.all fun c => !c.isUpper

theorem ensure_ok {p : Prop} [Decidable p] {e : Thrown} {a : Unit} (h : ensure p e = .ok a) : p := by
  unfold ensure at h
  split at h
  · assumption
  · cases h

variable {sha256Hex : String → String} (journal : ChardbMigrationJournal sha256Hex ν)

/-- A version that the journal does not have. -/
def incompatible (subject : String) (version : Int) : Thrown :=
  .cdb
    { code := .partitionContractChanged
      message := s!"{subject} version {decimal version} is incompatible with packaged version " ++
        decimal journal.version }

/-- `pendingMigrations`: the suffix after a stored version. -/
def pendingMigrations (activeVersion : Int) : Except Thrown (List (ChardbMigration ν)) := do
  ensure (IsSafeInteger activeVersion ∧ 0 ≤ activeVersion ∧ activeVersion ≤ journal.version)
    (incompatible journal "stored schema" activeVersion)
  pure (journal.migrations.drop activeVersion.toNat)

/-- The digest of the first `n` migrations. -/
def ChardbMigrationJournal.prefixDigest (n : Nat) : String :=
  stableHashHex sha256Hex (digestEntries (journal.migrations.take n))

def migrationDigestAt (version : Int) : Except Thrown String := do
  ensure (IsSafeInteger version ∧ 0 ≤ version ∧ version ≤ journal.version)
    (incompatible journal "schema" version)
  pure (journal.prefixDigest version.toNat)

end

end Chardb.Schema
