import Chardb.Policy.DbProxy

/-!
# Column grants stay with their rows

What `self` grants belongs to the rows that the caller owns. The wrapper keeps it there
unless the caller holds a role string `self`, which the column checks take for the
grants of `self`, or the owner column of the table goes by an SQL name that is the key of
another column or does not take the caller's id as it is, or the caller's condition has an
`OR` outside brackets.
-/

namespace Chardb.Policy

open Chardb.Lib

/-! ## Ownership and grants -/

/-- The column that says who owns a row. -/
def ownerColumn (t : CdbTableMeta) : Option String :=
  if t.tenantKind = .user then t.tenantBy else t.selfBy

/-- The row is the caller's own. -/
def OwnRow (t : CdbTableMeta) (auth : AuthCtx) (row : Row) : Prop :=
  ∃ column ∈ ownerColumn t, ∃ userId ∈ auth.userId, row column = .text userId

/-- A role other than `self` that the caller holds grants the verb on the column. -/
def RoleGrants (t : CdbTableMeta) (auth : AuthCtx) (verb : ColVerb) (col : String) : Prop :=
  ∃ role ∈ callerPolicyRoles t auth, role ≠ "self" ∧ isColumnAllowed t role verb col

/-- `self` grants the verb on the column. -/
def SelfGrants (t : CdbTableMeta) (verb : ColVerb) (col : String) : Prop :=
  isColumnAllowed t "self" verb col

/-- The name finds the column that it names, and the column takes the value as it is. -/
def Plain (t : CdbTableMeta) (column : String) (value : Option String) : Prop :=
  resolveColumn t column = some column ∧ ∀ v ∈ value, (t.typeOf column).Verbatim v

theorem roleGrants_or_self {t : CdbTableMeta} {auth : AuthCtx} {verb : ColVerb} {role col : String}
    (hrole : role ∈ callerPolicyRoles t auth) (h : isColumnAllowed t role verb col) :
    RoleGrants t auth verb col ∨ SelfGrants t verb col := by
  by_cases hself : role = "self"
  · subst hself; exact .inr h
  · exact .inl ⟨role, hrole, hself, h⟩

theorem selfColumns_has {t : CdbTableMeta} {verb : ColVerb} {col : String} :
    (selfColumns t verb).has col ↔ SelfGrants t verb col := by
  rw [SelfGrants, isColumnAllowed_iff, selfColumns]
  cases h : t.matrix.allowed "self" verb with
  | none => simp [ColumnSet.has]
  | some set => simp

theorem rowEq_iff {row : Row} {column : String} {value : Option String} :
    rowEq row column value = true ↔ ∃ v ∈ value, row column = .text v := by
  cases value <;> simp [rowEq]

/-! ## Policies of a table -/

theorem mem_compileCdbPolicies {t : CdbTableMeta} {p : PolicyDefinition} :
    p ∈ compileCdbPolicies t ↔
      (t.tenantKind ≠ .none ∧ ∃ column ∈ t.tenantBy, p = tenantPolicy t column) ∨
      (t.publicRead = true ∧ p = publicReadPolicy t) ∨
      (∃ e ∈ t.rawRoles, e.1 ≠ "self" ∧
        ∃ verb, roleGrantsRowVerb e.2 verb = true ∧ p = rolePolicy t e.1 verb) ∨
      (((t.tenantKind = .org ∧ t.selfBy.isSome) ∨ t.tenantKind = .user) ∧
        ∃ raw, rawRole? t "self" = some raw ∧
          ∃ verb, roleGrantsRowVerb raw verb = true ∧ p = selfPolicy t verb) := by
  have hverb : ∀ verb : Verb, verb ∈ ROW_VERBS := by intro verb; cases verb <;> decide
  have htenant : p ∈ (if t.tenantKind = .none then []
      else (t.tenantBy.map (tenantPolicy t)).toList) ↔
        t.tenantKind ≠ .none ∧ ∃ column ∈ t.tenantBy, p = tenantPolicy t column := by
    split
    · rename_i hkind
      simp [hkind]
    · rename_i hkind
      simp [hkind, Option.mem_toList, Option.map_eq_some_iff, eq_comm (a := p)]
  have hpublic : p ∈ (if t.publicRead then [publicReadPolicy t] else []) ↔
      t.publicRead = true ∧ p = publicReadPolicy t := by
    split <;> simp_all
  have hrole : p ∈ rolePolicies t ↔ ∃ e ∈ t.rawRoles, e.1 ≠ "self" ∧
      ∃ verb, roleGrantsRowVerb e.2 verb = true ∧ p = rolePolicy t e.1 verb := by
    simp only [rolePolicies, List.mem_flatMap, List.mem_filter, List.mem_map, decide_eq_true_eq,
      hverb, true_and, and_assoc, eq_comm (a := p)]
  have hself : p ∈ selfPolicies t ↔
      ((t.tenantKind = .org ∧ t.selfBy.isSome) ∨ t.tenantKind = .user) ∧
        ∃ raw, rawRole? t "self" = some raw ∧
          ∃ verb, roleGrantsRowVerb raw verb = true ∧ p = selfPolicy t verb := by
    unfold selfPolicies
    cases rawRole? t "self" with
    | none => simp
    | some raw =>
      simp only
      split
      · rename_i hkind
        simp only [List.mem_map, List.mem_filter, hverb, true_and, hkind, Option.some.injEq,
          exists_eq_left', eq_comm (a := p)]
      · rename_i hkind
        simp [hkind]
  rw [compileCdbPolicies, List.mem_append, List.mem_append, List.mem_append, htenant, hpublic,
    hrole, hself, or_assoc, or_assoc]

theorem sqlEqColumn_closed {t : CdbTableMeta} {column : String} {value : Option String} :
    Closed ((sqlEqColumn t column value).getD SQL_FALSE) := by
  unfold sqlEqColumn
  split <;> exact closed_operand _

theorem policyFragment_closed {t : CdbTableMeta} {auth : AuthCtx} {p : PolicyDefinition}
    (hp : p ∈ compileCdbPolicies t) : Closed (policyFragment auth p) := by
  rcases mem_compileCdbPolicies.mp hp with ⟨-, column, -, rfl⟩ | ⟨-, rfl⟩ | ⟨e, -, -, verb, -, rfl⟩ |
    ⟨-, raw, -, verb, -, rfl⟩
  · exact sqlEqColumn_closed
  · exact closed_operand _
  · unfold policyFragment rolePolicy
    simp only
    split <;> exact closed_operand _
  · unfold policyFragment selfPolicy
    simp only
    split
    · exact closed_operand _
    · split
      · exact closed_operand _
      · exact sqlEqColumn_closed

/-! ## The rows that the policies select -/

theorem selects_policies {t : CdbTableMeta} {op : PolicyOp} {auth : AuthCtx}
    {userWhere : Option SqlText} {policies : List PolicyDefinition} {row : Row}
    (huser : ∀ c ∈ userWhere, Closed c) (hpolicies : ∀ p ∈ policies, p ∈ compileCdbPolicies t) :
    selects (applyPoliciesToWhere op auth userWhere policies) row = some true ↔
      (∀ c ∈ userWhere, c.truth row = some true) ∧
      (∀ p ∈ policies, appliesTo p op auth → p.effect = .floor →
        (policyFragment auth p).truth row = some true) ∧
      ∃ p ∈ policies, appliesTo p op auth ∧ p.effect = .grant ∧
        (policyFragment auth p).truth row = some true :=
  applyPoliciesToWhere_true huser fun p hp => policyFragment_closed (hpolicies p hp)

theorem appliesTo_authenticated {p : PolicyDefinition} {op : PolicyOp} {auth : AuthCtx}
    (haudience : p.audience = .authenticated) :
    appliesTo p op auth = true ↔ (∀ o ∈ p.op, o = op) ∧ truthy auth.userId = true := by
  rw [appliesTo, haudience]
  simp [Option.all_eq_true]

theorem sqlEqColumn_holds {t : CdbTableMeta} {column : String} {value : Option String} {row : Row} :
    ((sqlEqColumn t column value).getD SQL_FALSE).truth row = some true ↔
      ∃ v ∈ value, ∃ c ∈ resolveColumn t column, (t.typeOf c).sqlEq (row c) v = some true := by
  unfold sqlEqColumn
  cases value with
  | none => simp [SQL_FALSE_truth]
  | some v =>
    cases resolveColumn t column with
    | none => simp [SQL_FALSE_truth]
    | some c => simp [eqColumn_true]

theorem sqlEqColumn_true {t : CdbTableMeta} {column : String} {value : Option String} {row : Row}
    (hplain : Plain t column value)
    (h : ((sqlEqColumn t column value).getD SQL_FALSE).truth row = some true) :
    ∃ v ∈ value, row column = .text v := by
  obtain ⟨v, hv, c, hc, hrow⟩ := sqlEqColumn_holds.mp h
  obtain rfl := Option.some.inj (hplain.1.symm.trans hc)
  exact ⟨v, hv, ((hplain.2 v hv).sqlEq _).mp hrow⟩

theorem own_of_floor {t : CdbTableMeta} {auth : AuthCtx} {op : PolicyOp} {userWhere : Option SqlText}
    {policies : List PolicyDefinition} {row : Row} (hkind : t.tenantKind = .user)
    (hplain : ∀ column ∈ t.tenantBy, Plain t column auth.userId)
    (hauth : truthy auth.userId = true) (huser : ∀ c ∈ userWhere, Closed c)
    (hpolicies : ∀ p ∈ policies, p ∈ compileCdbPolicies t)
    (hfloor : ∀ column ∈ t.tenantBy, tenantPolicy t column ∈ policies)
    (h : selects (applyPoliciesToWhere op auth userWhere policies) row = some true) :
    OwnRow t auth row := by
  have howner : ownerColumn t = t.tenantBy := if_pos hkind
  have hvalue : tenantValueFromAuth t auth = auth.userId := by simp [tenantValueFromAuth, hkind]
  obtain ⟨column, hcolumn⟩ := Option.isSome_iff_exists.mp (t.tenantBy_isSome (by simp [hkind]))
  have hfragment := ((selects_policies huser hpolicies).mp h).2.1 _ (hfloor column hcolumn)
    ((appliesTo_authenticated rfl).mpr ⟨by simp [tenantPolicy], hauth⟩) rfl
  obtain ⟨userId, huserId, hrow⟩ := sqlEqColumn_true (hvalue ▸ hplain column hcolumn) hfragment
  exact ⟨column, howner ▸ hcolumn, userId, hvalue ▸ huserId, hrow⟩

/-- A row that `self` grants is the caller's own. -/
theorem own_of_selfPolicy {t : CdbTableMeta} {auth : AuthCtx} {verb : Verb} {row : Row}
    (hkind : t.tenantKind ≠ .user) (hplain : ∀ column ∈ t.selfBy, Plain t column auth.userId)
    (h : (policyFragment auth (selfPolicy t verb)).truth row = some true) : OwnRow t auth row := by
  have howner : ownerColumn t = t.selfBy := if_neg hkind
  simp only [policyFragment, selfPolicy, if_neg hkind] at h
  cases hself : t.selfBy with
  | none => simp [hself, SQL_FALSE_truth] at h
  | some column =>
    rw [hself] at h
    obtain ⟨userId, huser, hrow⟩ := sqlEqColumn_true (hplain column hself) h
    exact ⟨column, howner.trans hself, userId, huser, hrow⟩

/-! ### Names of policies -/

theorem rolePolicyName_ne_self {t : CdbTableMeta} {role : String} {verb verb' : Verb} :
    rolePolicyName t role verb ≠ selfPolicyName t verb' := by
  intro h
  have hchars := congrArg String.toList h
  simp [rolePolicyName, selfPolicyName, String.toList_append] at hchars

/-- An update grant by the name of `self` is the gate of `self`. -/
theorem selfPolicy_of_name {t : CdbTableMeta} {auth : AuthCtx} {p : PolicyDefinition}
    (hp : p ∈ compileCdbPolicies t) (happlies : appliesTo p .update auth = true)
    (heffect : p.effect = .grant) (hname : p.name = selfPolicyName t .update) :
    ∃ verb, p = selfPolicy t verb := by
  rcases mem_compileCdbPolicies.mp hp with ⟨-, column, -, rfl⟩ | ⟨-, rfl⟩ | ⟨e, -, -, verb, -, rfl⟩ |
    ⟨-, raw, -, verb, -, rfl⟩
  · cases heffect
  · simp [appliesTo, publicReadPolicy] at happlies
  · exact absurd hname rolePolicyName_ne_self
  · exact ⟨verb, rfl⟩

/-! ## Accesses -/

/-- What a caller does with a table. -/
inductive Access
  /-- Read a column of a row through a select. -/
  | read (userWhere : Option SqlText) (row : Row) (col : String)
  /-- Write a row through an update. -/
  | update (values : WriteValues) (userWhere : Option SqlText) (row : Row)
  | insert (values : WriteValues)

variable (t : CdbTableMeta) (auth : AuthCtx) (placement : Option CdbDbPlacement)

/-- The access goes through: a value is read, a row is written, a row is inserted. -/
def Access.Performed : Access → Prop
  | .read userWhere row col =>
    ∃ condition, selectWhere t auth placement userWhere = .ok condition ∧
      selects condition row = some true ∧ col ∈ t.allColumns ∧
        applyColumnMask t auth (materialize t row) col ≠ .null
  | .update values userWhere row =>
    ∃ plan, updatePlan t auth placement values = .ok plan ∧
      selects (plan.scopedWhere .update userWhere) row = some true
  | .insert values => ∃ filled, insertValues t auth placement values = .ok filled

/-- The columns an access uses, apart from those that are public or that the framework fills. -/
def Access.columns : Access → List String
  | .read _ _ col => if publicReadExposes t auth then [] else [col]
  | .update values _ _ => writtenColumns t values
  | .insert values =>
    match insertValues t auth placement values with
    | .ok (plan, filled) => (writtenColumns t filled).filter fun col => col ∉ autoFilledColumns plan
    | .error _ => []

def Access.verb : Access → ColVerb
  | .read .. => .read
  | .update .. => .update
  | .insert _ => .create

/-- `self` applies: the row is the caller's own, as every row is that the caller inserts. -/
def Access.Own : Access → Prop
  | .read _ row _ => OwnRow t auth row
  | .update _ _ row => OwnRow t auth row
  | .insert _ => True

/-- The condition that the caller hands in. -/
def Access.userWhere : Access → Option SqlText
  | .read userWhere .. => userWhere
  | .update _ userWhere _ => userWhere
  | .insert _ => none

variable {t auth placement}

theorem tenantPolicy_mem (hkind : t.tenantKind = .user) :
    ∀ column ∈ t.tenantBy, tenantPolicy t column ∈ compileCdbPolicies t := by
  intro column hcolumn
  exact mem_compileCdbPolicies.mpr (.inl ⟨by simp [hkind], column, hcolumn, rfl⟩)

/-- A value that is read is public, or granted by a role the caller holds, or `self` applies. -/
theorem read_columns {row : Row} {col : String} (hcol : col ∈ t.allColumns)
    (h : applyColumnMask t auth row col ≠ .null) :
    publicReadExposes t auth = true ∨
      (∃ role ∈ callerPolicyRoles t auth, isColumnAllowed t role .read col) ∨
      (selfApplies t auth row = true ∧ SelfGrants t .read col) := by
  unfold applyColumnMask at h
  split at h
  · rename_i hopen
    rcases Bool.or_eq_true .. |>.mp hopen with hpublic | hfull
    · exact .inl hpublic
    · have hlen : (callerColumns t auth .read).length = t.allColumns.length := by
        unfold maskIsFull at hfull
        simpa using (Bool.and_eq_true .. |>.mp hfull).1
      exact .inr (.inl ((mem_callerColumns hcol).mp (callerColumns_full hlen col hcol)))
  · simp only at h
    split at h
    · rename_i hreadable
      rcases Bool.or_eq_true .. |>.mp hreadable.2 with hcaller | hself
      · exact .inr (.inl ((mem_callerColumns hcol).mp (by simpa using hcaller)))
      · obtain ⟨happlies, hgrant⟩ := Bool.and_eq_true .. |>.mp hself
        exact .inr (.inr ⟨happlies, selfColumns_has.mp (by simpa using hgrant)⟩)
    · exact absurd rfl h

/-- An updated row is one whose columns the roles grant together, or one that `self` selects. -/
theorem update_columns {plan : AutoFillPlan} {values : WriteValues} {userWhere : Option SqlText}
    {row : Row} (hplan : updatePlan t auth placement values = .ok plan)
    (hrow : selects (plan.scopedWhere .update userWhere) row = some true) :
    (∀ col ∈ writtenColumns t values,
      (∃ role ∈ callerPolicyRoles t auth, isColumnAllowed t role .update col) ∨
        SelfGrants t .update col) ∧
    ((∀ c ∈ userWhere, Closed c) →
      (∀ col ∈ writtenColumns t values,
        ∃ role ∈ callerPolicyRoles t auth, isColumnAllowed t role .update col) ∨
          ((∀ column ∈ ownerColumn t, Plain t column auth.userId) → OwnRow t auth row)) := by
  obtain ⟨globalPlacement, -, hplan⟩ := bind_ok hplan
  obtain ⟨built, hbuilt, hplan⟩ := bind_ok hplan
  obtain ⟨htable, hauth, hpolicies, -, hself, -⟩ := buildWritePlan_ok hbuilt
  obtain ⟨hbindings, -, hwritable, rfl⟩ := assertUpdateAuthorized_ok hplan
  rw [htable, hauth] at hwritable
  simp only [AutoFillPlan.scopedWhere, applyScopedPoliciesToWhere, htable, hauth, hpolicies] at hrow
  refine ⟨fun col hcol => ?_, ?_⟩
  · obtain ⟨hmem, hall⟩ := writtenColumns_subset hcol
    have hcolumn := hwritable col hmem
    simp only [writableColumn, List.not_mem_nil, decide_false, Bool.false_or, Bool.or_eq_true,
      decide_eq_true_eq, Bool.and_eq_true, Option.any_eq_true] at hcolumn
    rcases hcolumn with ((hcaller | ⟨selfBy, hselfBy, heq, -⟩) | ⟨-, hallowed⟩) |
      ⟨selfBy, -, hallowed, -⟩
    · exact .inl ((mem_callerColumns hall).mp hcaller)
    · -- the owner column is managed, so that no update assigns it
      obtain ⟨c, hc, hassigned, rfl⟩ := mem_writtenColumns.mp hcol
      obtain ⟨b, hb, hkey, -⟩ := hself c hc (by rw [hselfBy, heq])
      exact absurd (hkey ▸ key_of_assigned hassigned) (hbindings b hb)
    · exact .inr hallowed
    · exact .inr hallowed
  · intro huser
    have hclosed := scopedUserWhere_closed t built.globalPlacement huser
    have hcompiled : ∀ p ∈ policiesForColumnUpdate t auth ((toSqlColumnNames t values).map Prod.fst)
        (compileCdbPolicies t), p ∈ compileCdbPolicies t := fun p hp => (List.mem_filter.mp hp).1
    obtain ⟨-, hfloors, p, hp, happlies, heffect, hfragment⟩ :=
      (selects_policies hclosed hcompiled).mp hrow
    obtain ⟨hp, hname⟩ := List.mem_filter.mp hp
    have hname : p.name ∈ permittedGrantNames t auth ((toSqlColumnNames t values).map Prod.fst) := by
      simpa [heffect] using hname
    unfold permittedGrantNames at hname
    split at hname
    · refine .inr fun hplain => ?_
      obtain ⟨verb, rfl⟩ := selfPolicy_of_name hp happlies heffect (List.mem_singleton.mp hname)
      by_cases hkind : t.tenantKind = .user
      · refine own_of_floor hkind (fun c hc => hplain c ((if_pos hkind).trans hc))
          ((appliesTo_authenticated rfl).mp happlies).2 hclosed hcompiled ?_ hrow
        intro column hcolumn
        exact List.mem_filter.mpr ⟨tenantPolicy_mem hkind column hcolumn, rfl⟩
      · exact own_of_selfPolicy hkind (fun c hc => hplain c ((if_neg hkind).trans hc)) hfragment
    · rename_i hroles
      refine .inl fun col hcol => ?_
      have hgranted : col ∈ roleUpdateColumns t auth ((toSqlColumnNames t values).map Prod.fst) := by
        simp only [requiresSelf, List.any_eq_true, decide_eq_true_eq, not_exists, not_and,
          not_not] at hroles
        exact hroles col (writtenColumns_subset hcol).1
      obtain ⟨role, hrole, hcolumn⟩ := List.mem_flatMap.mp hgranted
      exact ⟨role, (List.mem_filter.mp hrole).1, (List.mem_filter.mp hcolumn).2⟩

/-- An inserted column is filled by the framework, or granted for create. -/
theorem insert_columns {plan : AutoFillPlan} {values filled : WriteValues}
    (h : insertValues t auth placement values = .ok (plan, filled)) :
    ∀ col ∈ writtenColumns t filled, col ∉ autoFilledColumns plan →
      (∃ role ∈ callerPolicyRoles t auth, isColumnAllowed t role .create col) ∨
        SelfGrants t .create col := by
  obtain ⟨globalPlacement, -, h⟩ := bind_ok h
  obtain ⟨built, hbuilt, h⟩ := bind_ok h
  obtain ⟨row, happly, h⟩ := bind_ok h
  obtain ⟨rfl, rfl⟩ := Prod.mk.inj (Except.ok.inj h)
  obtain ⟨htable, hauth, -, -, hself, -⟩ := buildPlan_ok hbuilt
  obtain ⟨filled, hfilled, happly⟩ := bind_ok happly
  obtain ⟨_, -, happly⟩ := bind_ok happly
  obtain ⟨_, hcreate, happly⟩ := bind_ok happly
  obtain rfl := Except.ok.inj happly
  have hwritable := assertCreateAuthorized_ok hcreate
  rw [htable, hauth] at hwritable
  intro col hcol hfill
  obtain ⟨hmem, hall⟩ := writtenColumns_subset hcol
  have hcolumn := hwritable col hmem
  simp only [writableColumn, hfill, decide_false, Bool.false_or, Bool.or_eq_true,
    decide_eq_true_eq, Bool.and_eq_true, Option.any_eq_true] at hcolumn
  rcases hcolumn with ((hcaller | ⟨selfBy, hselfBy, heq, -⟩) | ⟨-, hallowed⟩) |
    ⟨selfBy, -, hallowed, -⟩
  · exact .inl ((mem_callerColumns hall).mp hcaller)
  · obtain ⟨c, hc, -, rfl⟩ := mem_writtenColumns.mp hcol
    obtain ⟨b, hb, hkey, -⟩ := hself c hc (by rw [hselfBy, heq])
    refine absurd (List.mem_append_left _ ?_) hfill
    refine List.mem_map.mpr ⟨b, hb, ?_⟩
    rw [htable, hkey, toSql_jsKey hc]
  · exact .inr hallowed
  · exact .inr hallowed

theorem granted_or_self {verb : ColVerb} {col : String}
    (h : (∃ role ∈ callerPolicyRoles t auth, isColumnAllowed t role verb col) ∨
      SelfGrants t verb col) : RoleGrants t auth verb col ∨ SelfGrants t verb col := by
  rcases h with ⟨role, hrole, hallowed⟩ | hself
  · exact roleGrants_or_self hrole hallowed
  · exact .inr hself

/-- Every column of an access that goes through is granted by a role or by `self`. -/
theorem Access.Performed.columns {access : Access} (h : access.Performed t auth placement) :
    ∀ col ∈ access.columns t auth placement,
      RoleGrants t auth access.verb col ∨ SelfGrants t access.verb col := by
  cases access with
  | read userWhere row col =>
    obtain ⟨-, -, -, hall, hvalue⟩ := h
    intro c hc
    simp only [Access.columns] at hc
    split at hc
    · cases hc
    · rename_i hpublic
      obtain rfl := List.mem_singleton.mp hc
      rcases read_columns hall hvalue with hopen | hrole | ⟨-, hself⟩
      · exact absurd hopen hpublic
      · exact granted_or_self (.inl hrole)
      · exact .inr hself
  | update values userWhere row =>
    obtain ⟨plan, hplan, hrow⟩ := h
    exact fun col hcol => granted_or_self ((update_columns hplan hrow).1 col hcol)
  | insert values =>
    obtain ⟨⟨plan, filled⟩, hinsert⟩ := h
    intro col hcol
    rw [Access.columns, hinsert] at hcol
    obtain ⟨hcol, hfill⟩ := List.mem_filter.mp hcol
    exact granted_or_self (insert_columns hinsert col hcol (by simpa using hfill))

/-- Members read titles, and users the secret of their own notes. -/
def notesConfig : MatrixConfig where
  tableName := "notes"
  columns := [⟨"id", "id"⟩, ⟨"organizationId", "organization_id"⟩, ⟨"ownerId", "owner_id"⟩,
    ⟨"title", "title"⟩, ⟨"secret", "secret"⟩]
  rawRoles :=
    [("member", .byVerb fun verb => if verb = .read then some (.columns ["title"]) else none),
      ("self", .byVerb fun verb => if verb = .read then some (.columns ["secret"]) else none)]
  rawColumns := []

def notesTable : CdbTableMeta where
  name := "notes"
  tenantKind := .org
  tenantBy := some "organization_id"
  selfBy := some "owner_id"
  partitionBy := .colocate []
  publicRead := false
  rawRoles := notesConfig.rawRoles
  columns := notesConfig.columns
  matrix := (compileColumnMatrix notesConfig).toOption.getD (.empty _)
  tenantBy_isSome _ := rfl
  tenantBy_mem := by decide
  selfBy_mem := by decide
  selfBy_user := by decide
  sqlNames_nodup := by decide
  jsKeys_nodup := by decide

/-- The caller `u1` of the organization `o1`. -/
def callerWith (roles : List String) : AuthCtx := ⟨some "u1", some "o1", none, some roles, none⟩

end Chardb.Policy
