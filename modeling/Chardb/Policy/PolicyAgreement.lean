import Chardb.Policy.Confinement

/-!
# The two forms of row policies

A policy is written twice, as a check on rows at hand and as a condition for SQL. Both
forms accept the same rows unless an ownership column that decides goes by an SQL name
which is the key of another column, so that the SQL form compares that other column, or
is none of texts, so that SQLite takes values for equal that `===` does not.
-/

namespace Chardb.Policy

open Chardb.Lib

/-! ## Agreement and its condition -/

/-- Both forms accept the same stored rows, and none where no grant applies. -/
structure PoliciesAgree (t : CdbTableMeta) : Prop where
  same : ∀ op auth row,
    applyRowPolicies op auth (compileCdbPolicies t) (materialize t row) = true ↔
      selects (applyPoliciesToWhere op auth none (compileCdbPolicies t)) row = some true
  ungranted : ∀ op auth row,
    (∀ p ∈ compileCdbPolicies t, appliesTo p op auth = true → p.effect ≠ .grant) →
      applyRowPolicies op auth (compileCdbPolicies t) (materialize t row) ≠ true ∧
        selects (applyPoliciesToWhere op auth none (compileCdbPolicies t)) row ≠ some true

/-- `self` grants the verb on rows of the table. -/
def SelfGrantsVerb (t : CdbTableMeta) (verb : Verb) : Prop :=
  ((t.tenantKind = .org ∧ t.selfBy.isSome) ∨ t.tenantKind = .user) ∧
    ∃ raw, rawRole? t "self" = some raw ∧ roleGrantsRowVerb raw verb = true

/-- There is a grant that some caller passes. -/
def Grantable (t : CdbTableMeta) : Prop :=
  t.publicRead = true ∨ (∃ verb, SelfGrantsVerb t verb) ∨
    ∃ e ∈ t.rawRoles, e.1 ≠ "self" ∧ (∃ verb, roleGrantsRowVerb e.2 verb = true) ∧
      ∃ auth, callerHasRole t auth e.1 = true

/-- For some verb that is not open to everyone, the owner of a row passes. -/
def SelfDecides (t : CdbTableMeta) : Prop :=
  t.tenantKind = .org ∧ ∃ verb, SelfGrantsVerb t verb ∧ ¬ (t.publicRead = true ∧ verb = .read)

/-- The name finds the column that it names, and the column is one of texts. -/
def PlainText (t : CdbTableMeta) (column : String) : Prop :=
  resolveColumn t column = some column ∧ (t.typeOf column).Textual

/-- The ownership columns that decide are columns of texts, and go by SQL names that no other column
has as its key. -/
def DecidingColumnsResolve (t : CdbTableMeta) : Prop :=
  (t.tenantKind ≠ .none → Grantable t → ∀ c ∈ t.tenantBy, PlainText t c) ∧
    (SelfDecides t → ∀ c ∈ t.selfBy, PlainText t c)

/-! ## One policy -/

section
variable {t : CdbTableMeta} {op : PolicyOp} {auth : AuthCtx} {row : Row} {p : PolicyDefinition}

theorem selects_compiled :
    selects (applyPoliciesToWhere op auth none (compileCdbPolicies t)) row = some true ↔
      (∀ p ∈ compileCdbPolicies t, appliesTo p op auth → p.effect = .floor →
        (policyFragment auth p).truth row = some true) ∧
      ∃ p ∈ compileCdbPolicies t, appliesTo p op auth ∧ p.effect = .grant ∧
        (policyFragment auth p).truth row = some true := by
  rw [selects_policies (fun c hc => absurd hc (by simp)) fun _ hp => hp]
  simp

theorem rowEq_iff_sql {column : String} {value : Option String} (hplain : PlainText t column) :
    rowEq (materialize t row) column value = true ↔
      ((sqlEqColumn t column value).getD SQL_FALSE).truth row = some true := by
  rw [rowEq_iff, sqlEqColumn_holds, hplain.1]
  refine exists_congr fun v => and_congr_right fun _ => ?_
  rw [materialize, (hplain.2 v).decode, ← (hplain.2 v).sqlEq]
  simp

theorem selfPolicy_fragment (verb : Verb) (hkind : t.tenantKind ≠ .user) :
    (policyFragment auth (selfPolicy t verb)).truth row = some true ↔
      ∃ c ∈ t.selfBy, ((sqlEqColumn t c auth.userId).getD SQL_FALSE).truth row = some true := by
  unfold policyFragment selfPolicy
  simp only [hkind, if_false]
  cases t.selfBy <;> simp [SQL_FALSE_truth]

theorem selfPolicy_usingRow (verb : Verb) (hkind : t.tenantKind ≠ .user) :
    (selfPolicy t verb).usingRow auth row = true ↔
      ∃ c ∈ t.selfBy, rowEq row c auth.userId = true := by
  unfold selfPolicy
  simp only [hkind, decide_false, Bool.false_or]
  cases t.selfBy <;> simp

/-- Both forms of a floor agree where the tenant column is plain. -/
theorem floor_forms (hp : p ∈ compileCdbPolicies t) (hfloor : p.effect = .floor)
    (hresolve : t.tenantKind ≠ .none → ∀ c ∈ t.tenantBy, PlainText t c) :
    p.usingRow auth (materialize t row) = true ↔ (policyFragment auth p).truth row = some true := by
  rcases mem_compileCdbPolicies.mp hp with ⟨hkind, column, hcolumn, rfl⟩ | ⟨-, rfl⟩ |
    ⟨e, -, -, verb, -, rfl⟩ | ⟨-, raw, -, verb, -, rfl⟩
  · exact rowEq_iff_sql (hresolve hkind column hcolumn)
  · cases hfloor
  · cases hfloor
  · cases hfloor

/-- Both forms of a grant agree, or the grant is one of `self` that `publicRead` covers. -/
theorem grant_forms (hresolve : SelfDecides t → ∀ c ∈ t.selfBy, PlainText t c)
    (hp : p ∈ compileCdbPolicies t) (happlies : appliesTo p op auth = true)
    (hgrant : p.effect = .grant) :
    (p.usingRow auth (materialize t row) = true ↔ (policyFragment auth p).truth row = some true) ∨
      (t.publicRead = true ∧ op = .select) := by
  rcases mem_compileCdbPolicies.mp hp with ⟨-, column, -, rfl⟩ | ⟨-, rfl⟩ |
    ⟨e, -, -, verb, -, rfl⟩ | ⟨hkind, raw, hraw, verb, hverb, rfl⟩
  · cases hgrant
  · exact .inl (by simp [publicReadPolicy, policyFragment, SQL_TRUE_truth])
  · refine .inl ?_
    show callerHasRole t auth e.1 = true ↔
      CondText.truth (if callerHasRole t auth e.1 then SQL_TRUE else SQL_FALSE) row = some true
    cases callerHasRole t auth e.1 <;> simp [SQL_TRUE_truth, SQL_FALSE_truth]
  · by_cases huser : t.tenantKind = .user
    · exact .inl (by simp [selfPolicy, policyFragment, huser, SQL_TRUE_truth])
    · have horg : t.tenantKind = .org := (hkind.resolve_right huser).1
      by_cases hpublic : t.publicRead = true ∧ verb = .read
      · obtain ⟨hpublic, rfl⟩ := hpublic
        have hop := ((appliesTo_authenticated (p := selfPolicy t .read) rfl).mp happlies).1
        exact .inr ⟨hpublic, (hop _ rfl).symm⟩
      · have hres := hresolve ⟨horg, verb, ⟨hkind, raw, hraw, hverb⟩, hpublic⟩
        refine .inl ?_
        rw [selfPolicy_usingRow verb huser, selfPolicy_fragment verb huser]
        exact exists_congr fun c => and_congr_right fun hc => rowEq_iff_sql (hres c hc)

theorem grantable_of_passed (hp : p ∈ compileCdbPolicies t) (hgrant : p.effect = .grant)
    (h : p.usingRow auth (materialize t row) = true ∨
      (policyFragment auth p).truth row = some true) : Grantable t := by
  rcases mem_compileCdbPolicies.mp hp with ⟨-, column, -, rfl⟩ | ⟨hpublic, rfl⟩ |
    ⟨e, he, hne, verb, hverb, rfl⟩ | ⟨hkind, raw, hraw, verb, hverb, rfl⟩
  · cases hgrant
  · exact .inl hpublic
  · refine .inr (.inr ⟨e, he, hne, ⟨verb, hverb⟩, auth, ?_⟩)
    rcases h with h | h
    · exact h
    · by_contra hrole
      have hfalse : (policyFragment auth (rolePolicy t e.1 verb)).truth row = some false := by
        simp [policyFragment, rolePolicy, hrole, SQL_FALSE_truth]
      rw [hfalse] at h
      cases h
  · exact .inr (.inl ⟨verb, hkind, raw, hraw, hverb⟩)

theorem publicReadPolicy_mem (h : t.publicRead = true) : publicReadPolicy t ∈ compileCdbPolicies t :=
  mem_compileCdbPolicies.mpr (.inr (.inl ⟨h, rfl⟩))

theorem granted_forms (hresolve : SelfDecides t → ∀ c ∈ t.selfBy, PlainText t c) :
    (∃ p ∈ compileCdbPolicies t, appliesTo p op auth = true ∧ p.effect = .grant ∧
        p.usingRow auth (materialize t row) = true) ↔
      ∃ p ∈ compileCdbPolicies t, appliesTo p op auth = true ∧ p.effect = .grant ∧
        (policyFragment auth p).truth row = some true := by
  constructor
  · rintro ⟨p, hp, happlies, hgrant, hrow⟩
    rcases grant_forms hresolve hp happlies hgrant with hforms | ⟨hpublic, rfl⟩
    · exact ⟨p, hp, happlies, hgrant, hforms.mp hrow⟩
    · exact ⟨_, publicReadPolicy_mem hpublic, rfl, rfl, SQL_TRUE_truth row⟩
  · rintro ⟨p, hp, happlies, hgrant, hsql⟩
    rcases grant_forms hresolve hp happlies hgrant with hforms | ⟨hpublic, rfl⟩
    · exact ⟨p, hp, happlies, hgrant, hforms.mpr hsql⟩
    · exact ⟨_, publicReadPolicy_mem hpublic, rfl, rfl, rfl⟩

theorem policies_agree_of_resolve (h : DecidingColumnsResolve t) : PoliciesAgree t := by
  refine ⟨fun op auth row => ?_, fun op auth row hnone => ⟨fun hrow => ?_, fun hsql => ?_⟩⟩
  · rw [applyRowPolicies_true, selects_compiled]
    by_cases hg : Grantable t
    · rw [granted_forms h.2]
      constructor
      · rintro ⟨hfloor, hgrant⟩
        refine ⟨fun p hp happlies heffect => ?_, hgrant⟩
        exact (floor_forms hp heffect fun hk => h.1 hk hg).mp (hfloor p hp happlies heffect)
      · rintro ⟨hfloor, hgrant⟩
        refine ⟨fun p hp happlies heffect => ?_, hgrant⟩
        exact (floor_forms hp heffect fun hk => h.1 hk hg).mpr (hfloor p hp happlies heffect)
    · constructor
      · rintro ⟨-, p, hp, -, hgrant, hrow⟩
        exact absurd (grantable_of_passed hp hgrant (.inl hrow)) hg
      · rintro ⟨-, p, hp, -, hgrant, hsql⟩
        exact absurd (grantable_of_passed hp hgrant (.inr hsql)) hg
  · obtain ⟨-, p, hp, happlies, hgrant, -⟩ := applyRowPolicies_true.mp hrow
    exact hnone p hp happlies hgrant
  · obtain ⟨-, p, hp, happlies, hgrant, -⟩ := selects_compiled.mp hsql
    exact hnone p hp happlies hgrant

end

/-! ## Rows that the SQL form takes -/

/-- Another id. -/
def otherId (id : String) : String := if id = "u" then "o" else "u"

theorem otherId_ne (id : String) : otherId id ≠ id ∧ otherId id ≠ "" := by
  unfold otherId
  split
  · rename_i h
    subst h
    decide
  · rename_i h
    exact ⟨Ne.symm h, by decide⟩

section
variable {type type' : ColumnType}

theorem ColumnType.Textual.decode_text (h : type.Textual) {value s : String}
    (hs : type.decode (.text value) = .text s) : s = value :=
  (Cell.text.inj (((h s).decode _).mp hs)).symm

/-- SQLite takes some stored value for a text; only a column of texts hands it out as one. -/
theorem exists_equal (h : type.Textual ∨ type.Loose) :
    ∃ value cell, value ≠ "" ∧ type.sqlEq cell value = some true ∧
      ∀ s, type.decode cell = .text s → type.Textual ∧ s = value := by
  rcases h with htext | ⟨value, cell, hne, heq, hdecode⟩
  · exact ⟨"u", .text "u", by decide, ((htext "u").sqlEq _).mpr rfl,
      fun s hs => ⟨htext, htext.decode_text hs⟩⟩
  · exact ⟨value, cell, hne, heq, fun s hs => absurd hs (hdecode s)⟩

/-- Such values of two columns, with texts that differ where one is handed out. -/
theorem exists_equals (h : type.Textual ∨ type.Loose) (h' : type'.Textual ∨ type'.Loose) :
    ∃ value cell value' cell', value' ≠ "" ∧ type.sqlEq cell value = some true ∧
      type'.sqlEq cell' value' = some true ∧
      (∀ s, type.decode cell = .text s → type.Textual ∧ s = value ∧ s ≠ value') ∧
      ∀ s, type'.decode cell' = .text s → type'.Textual ∧ s = value' ∧ s ≠ value := by
  rcases h' with htext' | ⟨value', cell', hne', heq', hdecode'⟩
  · obtain ⟨value, cell, -, heq, hdecode⟩ := exists_equal h
    obtain ⟨hother, hne⟩ := otherId_ne value
    refine ⟨value, cell, otherId value, .text (otherId value), hne, heq,
      ((htext' _).sqlEq _).mpr rfl, fun s hs => ?_, fun s hs => ?_⟩
    · obtain ⟨htext, rfl⟩ := hdecode s hs
      exact ⟨htext, rfl, hother.symm⟩
    · obtain rfl := htext'.decode_text hs
      exact ⟨htext', rfl, hother⟩
  · rcases h with htext | ⟨value, cell, -, heq, hdecode⟩
    · refine ⟨otherId value', .text (otherId value'), value', cell', hne',
        ((htext _).sqlEq _).mpr rfl, heq', fun s hs => ?_, fun s hs => absurd hs (hdecode' s)⟩
      obtain rfl := htext.decode_text hs
      exact ⟨htext, rfl, (otherId_ne value').1⟩
    · exact ⟨value, cell, value', cell', hne', heq, heq', fun s hs => absurd hs (hdecode s),
        fun s hs => absurd hs (hdecode' s)⟩

end

section
variable {t : CdbTableMeta} {op : PolicyOp} {auth : AuthCtx} {c tenantId userId : String} {row : Row}

/-- Ids and a row that the SQL form takes for the row of their caller, while only plain columns hand
them out. -/
structure Taken (t : CdbTableMeta) (tenantId userId : String) (row : Row) : Prop where
  user_ne : userId ≠ ""
  user_eq : t.tenantKind = .user → tenantId = userId
  tenant : ∀ c ∈ t.tenantBy, ∃ c' ∈ resolveColumn t c, (t.typeOf c').sqlEq (row c') tenantId = some true
  self : t.tenantKind = .org → ∀ c ∈ t.selfBy, ∃ c' ∈ resolveColumn t c,
    (t.typeOf c').sqlEq (row c') userId = some true
  tenant_plain : ∀ c ∈ t.tenantBy, (t.typeOf c).decode (row c) = .text tenantId → PlainText t c
  self_plain : t.tenantKind = .org → ∀ c ∈ t.selfBy, (t.typeOf c).decode (row c) = .text userId →
    PlainText t c

/-- The columns whose types are compared as texts are, or more loosely. -/
def TypesKnown (t : CdbTableMeta) : Prop :=
  ∀ c ∈ t.allColumns, (t.typeOf c).Textual ∨ (t.typeOf c).Loose

theorem exists_resolved (h : c ∈ t.columns.map TableColumn.sqlName) :
    ∃ c' ∈ resolveColumn t c, c' ∈ t.allColumns := by
  unfold resolveColumn
  split
  · rename_i found hfound
    exact ⟨_, rfl, List.mem_map_of_mem (List.mem_of_find?_eq_some hfound)⟩
  · obtain ⟨col, hcol, rfl⟩ := List.mem_map.mp h
    rw [find?_key t.sqlNames_nodup hcol]
    exact ⟨_, rfl, h⟩

theorem decode_null_ne (type : ColumnType) (s : String) : type.decode .null ≠ .text s := by
  rw [type.decode_null]
  simp

theorem exists_taken_one {c c' : String} (htypes : TypesKnown t) (hc : t.tenantBy = some c)
    (hc' : c' ∈ resolveColumn t c) (hmem : c' ∈ t.allColumns)
    (hself : ∀ d ∈ t.selfBy, t.tenantKind = .org → resolveColumn t d = some c') :
    ∃ tenantId userId row, Taken t tenantId userId row := by
  obtain ⟨value, cell, hne, heq, hdecode⟩ := exists_equal (htypes c' hmem)
  have hplain : ∀ d, resolveColumn t d = some c' →
      (t.typeOf d).decode (if d = c' then cell else .null) = .text value → PlainText t d := by
    intro d hd hrow
    split at hrow
    · rename_i hdc
      rw [hdc] at hrow ⊢
      exact ⟨by rw [← hd, hdc], (hdecode value hrow).1⟩
    · exact absurd hrow (decode_null_ne _ _)
  refine ⟨value, value, fun col => if col = c' then cell else .null, hne, fun _ => rfl, ?_, ?_, ?_, ?_⟩
  · intro d hd
    obtain rfl := Option.some.inj (hc.symm.trans hd)
    exact ⟨c', hc', by rw [if_pos rfl]; exact heq⟩
  · exact fun horg d hd => ⟨c', hself d hd horg, by rw [if_pos rfl]; exact heq⟩
  · intro d hd hrow
    obtain rfl := Option.some.inj (hc.symm.trans hd)
    exact hplain _ hc' hrow
  · exact fun horg d hd hrow => hplain d (hself d hd horg) hrow

theorem exists_taken_two {c c' d d' : String} (htypes : TypesKnown t) (hkind : t.tenantKind = .org)
    (hc : t.tenantBy = some c) (hd : t.selfBy = some d) (hc' : c' ∈ resolveColumn t c)
    (hd' : d' ∈ resolveColumn t d) (hcmem : c' ∈ t.allColumns) (hdmem : d' ∈ t.allColumns)
    (hne : d' ≠ c') : ∃ tenantId userId row, Taken t tenantId userId row := by
  obtain ⟨value, cell, value', cell', hne', heq, heq', hdecode, hdecode'⟩ :=
    exists_equals (htypes c' hcmem) (htypes d' hdmem)
  refine ⟨value, value', fun col => if col = c' then cell else if col = d' then cell' else .null,
    hne', fun h => absurd h (by simp [hkind]), ?_, ?_, ?_, ?_⟩
  · intro e he
    obtain rfl := Option.some.inj (hc.symm.trans he)
    exact ⟨c', hc', by rw [if_pos rfl]; exact heq⟩
  · intro _ e he
    obtain rfl := Option.some.inj (hd.symm.trans he)
    exact ⟨d', hd', by rw [if_neg hne, if_pos rfl]; exact heq'⟩
  · intro e he hrow
    obtain rfl := Option.some.inj (hc.symm.trans he)
    split at hrow
    · rename_i hec
      subst hec
      exact ⟨hc', (hdecode value hrow).1⟩
    · split at hrow
      · rename_i hed
        subst hed
        exact absurd rfl (hdecode' value hrow).2.2
      · exact absurd hrow (decode_null_ne _ _)
  · intro _ e he hrow
    obtain rfl := Option.some.inj (hd.symm.trans he)
    split at hrow
    · rename_i hec
      subst hec
      exact absurd rfl (hdecode value' hrow).2.2
    · split at hrow
      · rename_i hed
        subst hed
        exact ⟨hd', (hdecode' value' hrow).1⟩
      · exact absurd hrow (decode_null_ne _ _)

theorem exists_taken (htypes : TypesKnown t) (hkind : t.tenantKind ≠ .none) :
    ∃ tenantId userId row, Taken t tenantId userId row := by
  obtain ⟨c, hc⟩ := Option.isSome_iff_exists.mp (t.tenantBy_isSome hkind)
  obtain ⟨c', hc', hcmem⟩ := exists_resolved (t.tenantBy_mem c hc)
  by_cases hsame : ∀ d ∈ t.selfBy, t.tenantKind = .org → resolveColumn t d = some c'
  · exact exists_taken_one htypes hc hc' hcmem hsame
  · simp only [not_forall] at hsame
    obtain ⟨d, hd, horg, hother⟩ := hsame
    obtain ⟨d', hd', hdmem⟩ := exists_resolved (t.selfBy_mem d hd)
    refine exists_taken_two htypes horg hc hd hc' hd' hcmem hdmem ?_
    rintro rfl
    exact hother hd'

/-- A caller with the roles of another and these ids. -/
def callerOf (auth : AuthCtx) (tenantId userId : String) : AuthCtx :=
  { auth with
    userId := some userId
    tenantId := some tenantId }

theorem Taken.truthy (h : Taken t tenantId userId row) :
    truthy (callerOf auth tenantId userId).userId = true := by
  simp [callerOf, Policy.truthy, h.user_ne]

theorem Taken.tenantValue (h : Taken t tenantId userId row) (hkind : t.tenantKind ≠ .none) :
    tenantValueFromAuth t (callerOf auth tenantId userId) = some tenantId := by
  unfold tenantValueFromAuth
  cases hk : t.tenantKind with
  | none => exact absurd hk hkind
  | org => rfl
  | user => simp [callerOf, h.user_eq hk]

/-- The caller passes the floors on the row, by the SQL form. -/
theorem Taken.floors (h : Taken t tenantId userId row) {p : PolicyDefinition}
    (hp : p ∈ compileCdbPolicies t) (hfloor : p.effect = .floor) :
    (policyFragment (callerOf auth tenantId userId) p).truth row = some true := by
  rcases mem_compileCdbPolicies.mp hp with ⟨hkind, column, hcolumn, rfl⟩ | ⟨-, rfl⟩ |
    ⟨e, -, -, verb, -, rfl⟩ | ⟨-, raw, -, verb, -, rfl⟩
  · exact sqlEqColumn_holds.mpr ⟨tenantId, h.tenantValue hkind, h.tenant column hcolumn⟩
  · cases hfloor
  · cases hfloor
  · cases hfloor

/-- Where both forms agree, a grant that the caller passes lets the row through the row form. -/
theorem Taken.rowForm (h : Taken t tenantId userId row) (hagree : PoliciesAgree t)
    {p : PolicyDefinition} (hp : p ∈ compileCdbPolicies t)
    (happlies : appliesTo p op (callerOf auth tenantId userId) = true) (hgrant : p.effect = .grant)
    (hsql : (policyFragment (callerOf auth tenantId userId) p).truth row = some true) :
    applyRowPolicies op (callerOf auth tenantId userId) (compileCdbPolicies t) (materialize t row) =
      true :=
  (hagree.same _ _ _).mpr (selects_compiled.mpr
    ⟨fun _ hq _ hfloor => h.floors hq hfloor, p, hp, happlies, hgrant, hsql⟩)

/-- The gate of `self` lets the row through, by the SQL form. -/
theorem Taken.self_passes (h : Taken t tenantId userId row) {verb : Verb}
    (hkind : (t.tenantKind = .org ∧ t.selfBy.isSome) ∨ t.tenantKind = .user) :
    (policyFragment (callerOf auth tenantId userId) (selfPolicy t verb)).truth row = some true := by
  rcases hkind with ⟨horg, hself⟩ | huser
  · obtain ⟨c, hc⟩ := Option.isSome_iff_exists.mp hself
    exact (selfPolicy_fragment verb (by simp [horg])).mpr
      ⟨c, hc, sqlEqColumn_holds.mpr ⟨userId, rfl, h.self horg c hc⟩⟩
  · simp [policyFragment, selfPolicy, huser, SQL_TRUE_truth]

/-- The caller passes a grant. -/
theorem Grantable.passes (hg : Grantable t) (h : Taken t tenantId userId row) :
    ∃ (op : PolicyOp) (auth : AuthCtx), ∃ p ∈ compileCdbPolicies t,
      appliesTo p op (callerOf auth tenantId userId) = true ∧ p.effect = .grant ∧
        (policyFragment (callerOf auth tenantId userId) p).truth row = some true := by
  have hnobody : AuthCtx := ⟨none, none, none, none, none⟩
  rcases hg with hpublic | ⟨verb, hkind, raw, hraw, hverb⟩ | ⟨e, he, hne, ⟨verb, hverb⟩, auth, hrole⟩
  · exact ⟨.select, hnobody, _, publicReadPolicy_mem hpublic, rfl, rfl, SQL_TRUE_truth row⟩
  · exact ⟨verbToPolicyOp verb, hnobody, selfPolicy t verb,
      mem_compileCdbPolicies.mpr (.inr (.inr (.inr ⟨hkind, raw, hraw, verb, hverb, rfl⟩))),
      (appliesTo_authenticated rfl).mpr ⟨fun o ho => (Option.some.inj ho).symm, h.truthy⟩, rfl,
      h.self_passes hkind⟩
  · refine ⟨verbToPolicyOp verb, auth, rolePolicy t e.1 verb,
      mem_compileCdbPolicies.mpr (.inr (.inr (.inl ⟨e, he, hne, verb, hverb, rfl⟩))),
      (appliesTo_authenticated rfl).mpr ⟨fun o ho => (Option.some.inj ho).symm, h.truthy⟩, rfl, ?_⟩
    have hrole : callerHasRole t (callerOf auth tenantId userId) e.1 = true := hrole
    simp [policyFragment, rolePolicy, hrole, SQL_TRUE_truth]

/-- Where both forms agree, a tenant column behind a grant is plain. -/
theorem PoliciesAgree.tenant_plain (h : PoliciesAgree t) (htypes : TypesKnown t)
    (hkind : t.tenantKind ≠ .none) (hg : Grantable t) (hc : c ∈ t.tenantBy) : PlainText t c := by
  obtain ⟨tenantId, userId, row, htaken⟩ := exists_taken htypes hkind
  obtain ⟨op, auth, p, hp, happlies, hgrant, hsql⟩ := hg.passes htaken
  obtain ⟨hfloor, -⟩ := applyRowPolicies_true.mp (htaken.rowForm h hp happlies hgrant hsql)
  have htenant := hfloor (tenantPolicy t c) (mem_compileCdbPolicies.mpr (.inl ⟨hkind, c, hc, rfl⟩))
    ((appliesTo_authenticated rfl).mpr ⟨by simp [tenantPolicy], htaken.truthy⟩) rfl
  obtain ⟨v, hv, hcell⟩ := rowEq_iff.mp htenant
  obtain rfl := Option.some.inj ((htaken.tenantValue hkind).symm.trans hv)
  exact htaken.tenant_plain c hc hcell

theorem callerHasRole_nobody {role : String} :
    callerHasRole t (callerOf ⟨none, none, none, none, none⟩ tenantId userId) role = false := by
  have hempty : splitRoleText "" = [] := by decide
  have hlattice : latticeRoles (callerOf ⟨none, none, none, none, none⟩ tenantId userId) = [] := rfl
  have huser : splitUserRoles (callerOf ⟨none, none, none, none, none⟩ tenantId userId) = [] := hempty
  unfold callerHasRole callerPolicyRoles
  rw [hlattice, huser]
  cases t.tenantKind <;> simp

/-- Where both forms agree, a column of `self` that decides is plain. -/
theorem PoliciesAgree.self_plain (h : PoliciesAgree t) (htypes : TypesKnown t) (hself : SelfDecides t)
    (hc : c ∈ t.selfBy) : PlainText t c := by
  obtain ⟨horg, verb, ⟨hkind, raw, hraw, hverb⟩, hpublic⟩ := hself
  have hne : t.tenantKind ≠ .user := by simp [horg]
  obtain ⟨tenantId, userId, row, htaken⟩ := exists_taken htypes (by simp [horg])
  have hmem : selfPolicy t verb ∈ compileCdbPolicies t :=
    mem_compileCdbPolicies.mpr (.inr (.inr (.inr ⟨hkind, raw, hraw, verb, hverb, rfl⟩)))
  have happlies : appliesTo (selfPolicy t verb) (verbToPolicyOp verb)
      (callerOf ⟨none, none, none, none, none⟩ tenantId userId) = true :=
    (appliesTo_authenticated rfl).mpr ⟨fun o ho => (Option.some.inj ho).symm, htaken.truthy⟩
  obtain ⟨-, p, hp, hpapplies, hgrant, hrow⟩ :=
    applyRowPolicies_true.mp (htaken.rowForm h hmem happlies rfl (htaken.self_passes hkind))
  rcases mem_compileCdbPolicies.mp hp with ⟨-, column, -, rfl⟩ | ⟨hpub, rfl⟩ |
    ⟨e, -, -, verb', -, rfl⟩ | ⟨-, raw', -, verb', -, rfl⟩
  · cases hgrant
  · have hselect : PolicyOp.select = verbToPolicyOp verb := by
      simpa [appliesTo, publicReadPolicy] using hpapplies
    have hop : verbToPolicyOp .read = verbToPolicyOp verb := hselect
    exact absurd ⟨hpub, (verbToPolicyOp_injective hop).symm⟩ hpublic
  · have hrow : callerHasRole t (callerOf ⟨none, none, none, none, none⟩ tenantId userId) e.1 = true :=
      hrow
    rw [callerHasRole_nobody] at hrow
    cases hrow
  · obtain ⟨c₁, hc₁, heq⟩ := (selfPolicy_usingRow verb' hne).mp hrow
    obtain rfl := Option.some.inj (hc.symm.trans hc₁)
    obtain ⟨v, hv, hcell⟩ := rowEq_iff.mp heq
    obtain rfl := Option.some.inj hv
    exact htaken.self_plain horg c hc hcell

end

/-! ## When both forms agree -/

/-- The two forms of the policies of a table accept the same rows, for every caller and operation, if
the ownership columns that decide are columns of texts and resolve to themselves; and only if, where
every column is one of texts or takes values for equal to a text that are none. -/
theorem row_and_sql_policies_agree_iff (t : CdbTableMeta) :
    (DecidingColumnsResolve t → PoliciesAgree t) ∧
      (TypesKnown t → (PoliciesAgree t ↔ DecidingColumnsResolve t)) :=
  ⟨policies_agree_of_resolve, fun htypes =>
    ⟨fun h => ⟨fun hkind hg _ hc => h.tenant_plain htypes hkind hg hc,
      fun hself _ hc => h.self_plain htypes hself hc⟩, policies_agree_of_resolve⟩⟩

/-- On `docs` a member of `o1` may delete a row of `o2` by the SQL form alone. -/
theorem row_and_sql_policies_disagree : ¬ ∀ t : CdbTableMeta, PoliciesAgree t := by
  intro hall
  have hsql : selects (applyPoliciesToWhere .delete (callerWith ["member"]) none
      (compileCdbPolicies docsTable)) movedDoc = some true := by decide +kernel
  have hrow : applyRowPolicies .delete (callerWith ["member"]) (compileCdbPolicies docsTable)
      (materialize docsTable movedDoc) = false := by decide +kernel
  rw [((hall docsTable).same _ _ _).mpr hsql] at hrow
  cases hrow

end Chardb.Policy
