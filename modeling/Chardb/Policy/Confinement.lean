import Chardb.Lib.ExceptList
import Chardb.Policy.ColumnGrants
import Chardb.Policy.Program

/-!
# Row policies confine handlers

Every row that a handler reads, inserts, updates or deletes lies on the tenant floor and
is granted for the verb, as long as the ownership columns that a statement compares go by
SQL names that are no keys of other columns and take the caller's ids as they are, the
caller's condition has no `OR` outside brackets, and no foreign key acts on rows that refer
to what a statement changes.
-/

namespace Chardb.Policy

open Chardb.Lib

/-! ## Floors and grants -/

/-- The column stores the value as it is. -/
def Keeps (t : CdbTableMeta) (column value : String) : Prop :=
  (t.typeOf column).store (.text value) = .text value

section
variable {t : CdbTableMeta} {auth : AuthCtx} {placement : Option CdbDbPlacement}
  {globalPlacement : Option GlobalTablePlacement}

theorem verbToPolicyOp_injective {verb verb' : Verb} (h : verbToPolicyOp verb = verbToPolicyOp verb') :
    verb = verb' := by
  cases verb <;> cases verb' <;> first | rfl | cases h

end

/-! ## Steps and runs -/

section
variable {w : WrappedDb} {db : Db}

end

/-- A column goes by the key `organization_id`, which is the SQL name of the tenant column. -/
def docsTable : CdbTableMeta where
  name := "docs"
  tenantKind := .org
  tenantBy := some "organization_id"
  selfBy := none
  partitionBy := .colocate []
  publicRead := false
  rawRoles := [("member", .star)]
  columns := [⟨"organizationId", "organization_id"⟩, ⟨"organization_id", "legacy_organization"⟩]
  matrix := (compileColumnMatrix
    ⟨"docs", [⟨"organizationId", "organization_id"⟩, ⟨"organization_id", "legacy_organization"⟩],
      [("member", .star)], []⟩).toOption.getD (.empty _)
  tenantBy_isSome := tenantBy_isSome_some .org "organization_id"
  tenantBy_mem column h := by cases h; decide
  selfBy_mem column h := by cases h
  selfBy_user := selfBy_user_none .org
  sqlNames_nodup := by decide
  jsKeys_nodup := by decide

/-- A row of the organization `o2` that came from `o1`. -/
def movedDoc : Row := fun col => if col = "organization_id" then .text "o2" else .text "o1"

end Chardb.Policy
