import Chardb.Plan.Registered

/-!
# Compiled plans agree with their conditions

A plan that is compiled, sent as JSON, validated and rebuilt has the meaning of the
condition it came from, and both ways to a plan lead to one authority and one partition.
-/

namespace Chardb.Plan

open Chardb.Lib

variable {ν : Type} {t : DrizzleTable ν}

/-! ## One authority and one partition -/

theorem authorityAndPartitionColumn_ok {placement : TablePlacement}
    (h : authorityAndPartitionColumn t = .ok placement) :
    ∃ m, t.entry.resolveCdbMeta = .ok m ∧ placementForTable m = .ok placement := by
  obtain ⟨m, hm, h⟩ := bind_ok h
  refine ⟨m, hm, ?_⟩
  unfold placementForTable
  cases hkind : m.tenantKind with
  | org =>
    rw [hkind] at h
    cases hby : m.tenantBy with
    | some column => rw [hby] at h; exact h
    | none => rw [hby] at h; cases h
  | user =>
    rw [hkind] at h
    cases hby : m.tenantBy with
    | some column => rw [hby] at h; exact h
    | none => rw [hby] at h; cases h
  | none =>
    rw [hkind] at h
    simp only at h ⊢
    split at h
    · rename_i column hpartition
      split at h
      · cases h
      · rename_i hne
        simp only [hpartition, if_neg hne]
        exact h
    · cases h

theorem partitionOf_ok {intent : CdbIntent ν} {partitionKey : String}
    (h : partitionOf intent = .ok partitionKey) :
    ∃ key, intent.partitionKey = some key ∧ key.values = [.text partitionKey] := by
  unfold partitionOf at h
  split at h
  · rename_i s _ hvalues
    obtain ⟨key, hkey, hs⟩ := Option.map_eq_some_iff.mp hvalues
    split at h
    · cases h
    · obtain rfl := Except.ok.inj h
      exact ⟨key, hkey, hs⟩
  · cases h

section
variable [JsNumber ν]

theorem compilesTo_of_ok {condition : Sql ν} {p : ChardbPlanPredicate ν}
    (h : compileChardbSelectPlanPredicate condition t = .ok p) :
    ∃ n, compilePredicate t 1 condition 0 = .ok (p, n) := by
  obtain ⟨⟨q, n⟩, hq, h⟩ := bind_ok h
  obtain rfl := Except.ok.inj h
  exact ⟨n, hq⟩

/-- What compiles is within the limits of the validator. -/
theorem valid_of_ok {condition : Sql ν} {p : ChardbPlanPredicate ν}
    (h : compileChardbSelectPlanPredicate condition t = .ok p) :
    Valid CHARDB_SELECT_PLAN_MAX_DEPTH p ∧ p.nodes ≤ CHARDB_SELECT_PLAN_MAX_PREDICATES := by
  obtain ⟨n, hn⟩ := compilesTo_of_ok h
  obtain ⟨hvalid, hcount, hmax⟩ := compilePredicate_valid hn
  exact ⟨hvalid, by omega⟩

/-- A table of the schema is the one that its plans resolve to. -/
theorem resolveSelectPlan_registered {schema : List SchemaTable} {value : JsValue ν}
    {profile : SelectPlanProfile} {r : ResolvedSelectPlan ν}
    (h : resolveSelectPlan schema value profile = .ok r) {entry : SchemaTable} (hentry : entry ∈ schema)
    {m : Policy.CdbTableMeta} (hm : entry.resolveCdbMeta = .ok m) (hname : m.name = r.plan.table) :
    ∃ column, placementForTable m = .ok ⟨r.authority, column⟩ ∧ ∃ p, r.plan.where = some p ∧
      placementValues column p = some [r.partitionKey] := by
  unfold resolveSelectPlan at h
  obtain ⟨plan, -, h⟩ := bind_ok h
  obtain ⟨_, -, h⟩ := bind_ok h
  obtain ⟨entries, hentries, h⟩ := bind_ok h
  obtain ⟨one, hone, h⟩ := bind_ok h
  obtain ⟨hplan, -, p, column, hwhere, hplacement, hvalues, -⟩ := bindPlan_ok h
  rw [hplan] at hname ⊢
  have hmem : (entry, m) ∈ entries := by
    obtain ⟨resolved, hresolved, hfilter⟩ := bind_ok hentries
    obtain rfl := Except.ok.inj hfilter
    obtain ⟨⟨entry', m'⟩, hmem, hpair⟩ := exists_right_of_forall₂ (mapM_ok_iff.mp hresolved) hentry
    obtain ⟨m'', hm'', heq⟩ := map_ok hpair
    obtain rfl := Except.ok.inj (hm.symm.trans hm'')
    rw [← heq] at hmem
    exact List.mem_filter.mpr ⟨hmem, decide_eq_true hname⟩
  have hentry : one = (entry, m) := by
    unfold oneTable at hone
    split at hone
    · cases hone
    · rw [← Except.ok.inj hone]
      exact (List.mem_singleton.mp hmem).symm
    · cases hone
  rw [hentry] at hplacement
  exact ⟨column, hplacement, p, hwhere, hvalues⟩

end

theorem buildIntent_single [LinearOrder ν] {table column : String} {condition : Sql ν}
    {kind : IntentKind} {key : PartitionKey ν}
    (h : (buildIntent ⟨[table], some condition⟩ kind [(table, column)]).partitionKey = some key) :
    key.table = table ∧ key.column = column := by
  have hpartition : ([table].findSome? fun t =>
      ([(table, column)].find? fun e => e.1 = t).map fun e => (t, e.2)) = some (table, column) := by
    simp
  unfold buildIntent at h
  simp only [hpartition] at h
  split at h
  · obtain rfl := Option.some.inj h
    exact ⟨rfl, rfl⟩
  · cases h

section
variable [JsNumber ν] [LinearOrder ν]

/-- A plan that is compiled and validated, with what the walker found. -/
theorem compileRegisteredQueryPlan_ok {config : SelectConfig ν} {reg : RegisteredSelectQueryPlan ν}
    (h : compileRegisteredQueryPlan config = .ok reg) :
    ∃ t condition p placement, config.table = some t ∧
      compileChardbSelectPlanPredicate condition t = .ok p ∧
      authorityAndPartitionColumn t = .ok placement ∧ reg.authority = placement.authority ∧
      reg.plan.table = t.name ∧ reg.plan.where = some p ∧
      (∀ n, reg.plan.limit = some n → IsSafeInteger n) ∧
      partitionOf (buildIntent ⟨[t.name], some condition⟩ .select [(t.name, placement.column)]) =
        .ok reg.partitionKey := by
  unfold compileRegisteredQueryPlan at h
  obtain ⟨t, ht, h⟩ := bind_ok h
  obtain ⟨_, -, h⟩ := bind_ok h
  obtain ⟨limit, hlimit, h⟩ := bind_ok h
  obtain ⟨condition, -, h⟩ := bind_ok h
  obtain ⟨p, hp, h⟩ := bind_ok h
  obtain ⟨placement, hplacement, h⟩ := bind_ok h
  obtain ⟨partitionKey, hpartition, h⟩ := bind_ok h
  obtain ⟨projection, -, h⟩ := bind_ok h
  obtain ⟨orderBy, -, h⟩ := bind_ok h
  obtain ⟨plan, hplan, h⟩ := bind_ok h
  obtain ⟨_, -, h⟩ := bind_ok h
  have hsafe : IsSafeInteger limit := by
    unfold plannedLimit at hlimit
    split at hlimit
    · split at hlimit
      · rename_i hlimits
        obtain rfl := Except.ok.inj hlimit
        exact hlimits.1
      · cases hlimit
    · cases hlimit
  have htable : config.table = some t := by
    unfold requiredTable at ht
    split at ht
    · rename_i hconfig
      obtain rfl := Except.ok.inj ht
      exact hconfig
    · cases ht
  have hlimits : ∀ n, (⟨t.name, some p, some orderBy, some limit, .many⟩ :
      ChardbSelectPlan ν).limit = some n → IsSafeInteger n := by
    intro n hn
    rwa [← Option.some.inj hn]
  have hidentity := validate_identity hlimits hplan
  obtain rfl := Except.ok.inj h
  subst hidentity
  exact ⟨t, condition, p, placement, htable, hp, hplacement, rfl, rfl, rfl, hlimits, hpartition⟩

/-- A registered plan resolves, when it resolves, to its own authority and partition. -/
theorem registered_resolves {config : SelectConfig ν} {reg : RegisteredSelectQueryPlan ν}
    (hreg : compileRegisteredQueryPlan config = .ok reg) (htable : config.table = some t)
    {schema : List SchemaTable} (hentry : t.entry ∈ schema) {profile : SelectPlanProfile} {j : Json ν}
    (hj : Json.parse reg.plan.toJson.toText = some j) {r : ResolvedSelectPlan ν}
    (hr : resolveSelectPlan schema (JsValue.ofJson j) profile = .ok r) :
    r.authority = reg.authority ∧ r.partitionKey = reg.partitionKey := by
  obtain ⟨t', condition, p, placement, htable', hp, hplacement, hauthority, hname, hwhere, hlimit,
    hpartition⟩ := compileRegisteredQueryPlan_ok hreg
  obtain rfl := Option.some.inj (htable.symm.trans htable')
  have hvalid := (valid_of_ok hp).1
  have hexact : reg.plan.toJson.Exact := plan_exact
    (fun q hq => ⟨_, Option.some.inj (hwhere.symm.trans hq) ▸ hvalid⟩) hlimit
  obtain rfl := Option.some.inj ((Json.parse_toText hexact).symm.trans hj)
  have hplan : r.plan = reg.plan := validate_identity hlimit (resolveSelectPlan_ok hr).1
  obtain ⟨m, hm, hplacement'⟩ := authorityAndPartitionColumn_ok hplacement
  have hmeta : m.name = r.plan.table := by rw [hplan, hname, t.named m hm]
  obtain ⟨column, hresolved, q, hq, hvalues⟩ := resolveSelectPlan_registered hr hentry hm hmeta
  obtain rfl : placement = ⟨r.authority, column⟩ :=
    Except.ok.inj (hplacement'.symm.trans hresolved)
  rw [hplan, hwhere] at hq
  obtain rfl := Option.some.inj hq
  refine ⟨hauthority.symm, ?_⟩
  obtain ⟨n, hn⟩ := compilesTo_of_ok hp
  obtain ⟨vs, hvs, htexts⟩ := CompilesTo.textsIn ⟨1, 0, n, hn⟩ _ hvalues
  obtain ⟨key, hkey, hkeyValues⟩ := partitionOf_ok hpartition
  obtain ⟨us, hus, hdistinct⟩ := buildIntent_partitionKey hkey
  obtain ⟨hkeyTable, hkeyColumn⟩ := buildIntent_single hkey
  rw [hkeyTable, hkeyColumn, hvs] at hus
  obtain rfl := Option.some.inj hus
  have hmem : ParamValue.text reg.partitionKey ∈ vs := by
    rw [← mem_distinct, ← hdistinct, hkeyValues]
    exact List.mem_cons_self
  obtain ⟨s, hs, heq⟩ := htexts _ hmem
  rw [ParamValue.text.inj heq, List.mem_singleton.mp hs]

end

/-! ## The agreement -/

theorem planColumn_eq {name : String} (h : (columnNamed t.entry.columns name).isSome = true) :
    planColumn t name = .ok (t.column name) := by
  obtain ⟨c, hc⟩ := Option.isSome_iff_exists.mp h
  simp [planColumn, hc]

theorem predicateSqlAll_total {ps : List (ChardbPlanPredicate ν)}
    (h : ∀ p ∈ ps, ∃ rebuilt, predicateSql t p = .ok rebuilt) :
    ∃ cs, predicateSqlAll t ps = .ok cs ∧ cs.length = ps.length := by
  induction ps with
  | nil => exact ⟨[], by rw [predicateSqlAll]; rfl, rfl⟩
  | cons p ps ih =>
    obtain ⟨c, hc⟩ := h p List.mem_cons_self
    obtain ⟨cs, hcs, hlen⟩ := ih fun q hq => h q (List.mem_cons_of_mem _ hq)
    exact ⟨c :: cs, by rw [predicateSqlAll, hc, hcs]; rfl, by simp [hlen]⟩

theorem mem_predicateColumnsAll {ps : List (ChardbPlanPredicate ν)} {p : ChardbPlanPredicate ν}
    (hp : p ∈ ps) {name : String} (h : name ∈ predicateColumns p) : name ∈ predicateColumnsAll ps := by
  induction ps with
  | nil => cases hp
  | cons q ps ih =>
    rw [predicateColumnsAll, List.mem_append]
    rcases List.mem_cons.mp hp with rfl | hp
    · exact .inl h
    · exact .inr (ih hp)

section
variable [JsNumber ν]

/-- A predicate whose columns are known is rebuilt. -/
theorem predicateSql_total {levels : Nat} {p : ChardbPlanPredicate ν} (hvalid : Valid levels p) :
    (∀ name ∈ predicateColumns p, (columnNamed t.entry.columns name).isSome = true) →
      ∃ rebuilt, predicateSql t p = .ok rebuilt := by
  induction hvalid with
  | compare op hname hvalue =>
    intro h
    rw [predicateColumns, List.forall_mem_singleton] at h
    exact ⟨_, by rw [predicateSql, planColumn_eq h]; rfl⟩
  | inList hname hlength hvalues =>
    intro h
    rw [predicateColumns, List.forall_mem_singleton] at h
    exact ⟨_, by rw [predicateSql, planColumn_eq h]; rfl⟩
  | between hname hlower hupper =>
    intro h
    rw [predicateColumns, List.forall_mem_singleton] at h
    exact ⟨_, by rw [predicateSql, planColumn_eq h]; rfl⟩
  | null op hname =>
    intro h
    rw [predicateColumns, List.forall_mem_singleton] at h
    exact ⟨_, by rw [predicateSql, planColumn_eq h]; rfl⟩
  | @node levels kind ps hlength _ ih =>
    intro h
    rw [predicateColumns] at h
    obtain ⟨cs, hcs, hlen⟩ := predicateSqlAll_total (t := t) fun p hp =>
      ih p hp fun name hname => h name (mem_predicateColumnsAll hp hname)
    rcases cs with _ | ⟨c, _ | ⟨d, ds⟩⟩
    · rw [List.length_nil] at hlen
      omega
    · rw [List.length_singleton] at hlen
      omega
    · exact ⟨_, by rw [predicateSql, hcs]; rfl⟩

/-- A leaf compiles to its plan. -/
theorem compile_of_leaf {chunks : Sql ν} {p : ChardbPlanPredicate ν} (h : LeafOf t (compact chunks) p) :
    compileChardbSelectPlanPredicate chunks t = .ok p := by
  have hrun : compilePredicate t 1 chunks 0 = .ok (p, 1) := by
    rw [compilePredicate_leaf h.onlySql_none h.matchConjunction_none,
      state_bind_eq (countCondition_eq (by decide) (by decide)), h.compile]
    rfl
  unfold compileChardbSelectPlanPredicate
  rw [hrun]
  rfl

variable [LinearOrder ν]

/-- A condition that compiles: within the limits its plan comes back out of JSON and the validator,
which changes no plan; what is rebuilt of it compiles to it again and is true where the condition
is, if the values of the condition are bound with the encoders of their columns; and a plan that
is registered and resolved has one authority and one partition. -/
theorem compiled_plan_preserves_meaning {condition : Sql ν} {p : ChardbPlanPredicate ν}
    (h : compileChardbSelectPlanPredicate condition t = .ok p) :
    (∀ plan : ChardbSelectPlan ν, plan.where = some p →
      p.stringBytes ≤ CHARDB_SELECT_PLAN_MAX_BYTES →
        (∀ items, plan.orderBy = some items →
          (1 ≤ items.length ∧ items.length ≤ CHARDB_SELECT_PLAN_MAX_ORDER_BY) ∧
            ∀ item ∈ items, isIdentifier item.column = true) →
          (∀ n, plan.limit = some n → 1 ≤ n ∧ n ≤ CHARDB_SELECT_PLAN_MAX_LIMIT) →
            isIdentifier plan.table = true →
              byteLength plan.toJson.stringify ≤ CHARDB_SELECT_PLAN_MAX_BYTES →
                ∃ j, Json.parse plan.toJson.toText = some j ∧
                  validateChardbSelectPlanV1 (JsValue.ofJson j) = .ok plan) ∧
    (∀ plan q : ChardbSelectPlan ν, (∀ n, plan.limit = some n → IsSafeInteger n) →
      validateChardbSelectPlanV1 (JsValue.ofJson plan.toJson) = .ok q → q = plan) ∧
    ((∀ name ∈ predicateColumns p, (columnNamed t.entry.columns name).isSome = true) →
      ∃ rebuilt, predicateSql t p = .ok rebuilt) ∧
    (∀ rebuilt, predicateSql t p = .ok rebuilt →
      compileChardbSelectPlanPredicate rebuilt t = .ok p ∧
        (ColumnBound t condition → ∀ (raw : Sql ν → Alternatives ν) (row : SqlRow ν),
          truth raw condition row = truth raw rebuilt row)) ∧
    ∀ (config : SelectConfig ν) (reg : RegisteredSelectQueryPlan ν),
      compileRegisteredQueryPlan config = .ok reg → config.table = some t →
        ∀ (schema : List SchemaTable) (profile : SelectPlanProfile) (j : Json ν)
          (r : ResolvedSelectPlan ν), t.entry ∈ schema →
            Json.parse reg.plan.toJson.toText = some j →
              resolveSelectPlan schema (JsValue.ofJson j) profile = .ok r →
                r.authority = reg.authority ∧ r.partitionKey = reg.partitionKey := by
  obtain ⟨hvalid, hnodes⟩ := valid_of_ok h
  refine ⟨?_, fun plan q hlimit hq => validate_identity hlimit hq, predicateSql_total hvalid, ?_, ?_⟩
  · intro plan hplan hstrings horder hlimit htable hbytes
    refine plan_round_trip ⟨fun q hq => ?_, horder, hlimit, htable, hbytes⟩
    obtain rfl := Option.some.inj (hplan.symm.trans hq)
    exact ⟨hvalid, hnodes, hstrings⟩
  · intro rebuilt hrebuilt
    have hagain : compilePredicate t 1 rebuilt 0 = .ok (p, 0 + p.nodes) :=
      recompile hvalid hrebuilt (by omega) (by omega)
    refine ⟨?_, fun hbound raw row => ?_⟩
    · unfold compileChardbSelectPlanPredicate
      rw [hagain]
      rfl
    · obtain ⟨n, hn⟩ := compilesTo_of_ok h
      rw [truth, truth, CompilesTo.render_eq ⟨1, 0, n, hn⟩ rebuilt hbound hrebuilt]
  · intro config reg hreg htable schema profile j r hentry hj hr
    exact registered_resolves hreg htable hentry hj hr

end

/-! ## A table of seats -/

def seatsEntry : SchemaTable :=
  ⟨.ok seatsTable, [⟨"SQLiteText", "string", "room", false⟩, ⟨"SQLiteInteger", "number", "seat", false⟩]⟩

theorem seatsEntry_named (m : Policy.CdbTableMeta) (h : seatsEntry.resolveCdbMeta = .ok m) :
    m.name = "seats" := by
  rw [← Except.ok.inj h]
  rfl

def seats : DrizzleTable Int :=
  ⟨0, "seats", seatsEntry, ["room", "seat"], ["room"], fun _ => encodeText, seatsEntry_named⟩

/-- `eq(seats.room, room)`, where the value is bound as `driver`. -/
def roomEq (room driver : String) : Sql Int :=
  [.string "", .column (seats.column "room"), .string " = ", .param ⟨.text room, some (.text driver)⟩,
    .string ""]

theorem compact_roomEq (room driver : String) : compact (roomEq room driver) =
    [.column (seats.column "room"), .string (CompareOp.text .eq),
      .param ⟨(ChardbPlanScalar.text room : ChardbPlanScalar Int).toParamValue, some (.text driver)⟩] := by
  simp [compact, roomEq, SqlChunk.isBlank, CompareOp.text, ChardbPlanScalar.toParamValue]

theorem compile_roomEq (room driver : String) :
    compileChardbSelectPlanPredicate (roomEq room driver) seats =
      .ok (.compare .eq "room" (.text room)) := by
  refine compile_of_leaf ?_
  rw [compact_roomEq]
  exact .compare .eq (by decide) trivial

theorem predicateSql_roomEq (room : String) :
    predicateSql seats (.compare .eq "room" (.text room)) = .ok (roomEq room room) := by
  rw [predicateSql, planColumn_eq (by decide)]
  rfl

theorem columnBound_roomEq (room : String) : ColumnBound seats (roomEq room room) := by
  refine .leaf (by rw [compact_roomEq]; rfl) (by rw [compact_roomEq]; rfl) ?_
  rw [compact_roomEq]
  simp [SqlChunk.bound, seats, encodeText, ChardbPlanScalar.toParamValue]

theorem truth_roomEq (room driver : String) (raw : Sql Int → Alternatives Int) (row : SqlRow Int) :
    truth raw (roomEq room driver) row = compareSql .eq (row "seats" "room") (some (.text driver)) := by
  have hshape : shapeOf (compact (roomEq room driver)) =
      .leaf fun row => compareSql .eq (row "seats" "room") (some (.text driver)) := by
    rw [compact_roomEq]
    simp [shapeOf, bracketed, negated, leafCond, compareText_text, cellOf, DrizzleTable.column, seats]
  rw [truth, render_leaf hshape, truth_single]

/-- The seats of room `r1`: the condition and what is rebuilt of its plan agree. -/
theorem compiled_plan_preserves_meaning_seats :
    ∃ rebuilt, predicateSql seats (.compare .eq "room" (.text "r1")) = .ok rebuilt ∧
      ∀ (raw : Sql Int → Alternatives Int) (row : SqlRow Int),
        truth raw (roomEq "r1" "r1") row = truth raw rebuilt row :=
  ⟨roomEq "r1" "r1", predicateSql_roomEq "r1",
    ((compiled_plan_preserves_meaning (compile_roomEq "r1" "r1")).2.2.2.1 _
      (predicateSql_roomEq "r1")).2 (columnBound_roomEq "r1")⟩

/-- A room that is bound by an encoder of its own, which puts it in lower case: the plan has the
value from before the encoder. -/
theorem compiled_plan_drops_encoder :
    ¬ ∀ (t : DrizzleTable Int) (condition rebuilt : Sql Int) (p : ChardbPlanPredicate Int),
      compileChardbSelectPlanPredicate condition t = .ok p → predicateSql t p = .ok rebuilt →
        ∀ (raw : Sql Int → Alternatives Int) (row : SqlRow Int),
          truth raw condition row = truth raw rebuilt row := by
  intro hall
  have heq := hall seats (roomEq "R1" "r1") (roomEq "R1" "R1") _ (compile_roomEq "R1" "r1")
    (predicateSql_roomEq "R1") noRaw fun _ _ => some (.text "r1")
  rw [truth_roomEq, truth_roomEq] at heq
  exact absurd heq (by decide)

end Chardb.Plan
