import Chardb.Plan.CompileSound

/-!
# Plans as JSON

The validator reads the JSON of a plan back as the plan, and refuses it only for a limit.
-/

namespace Chardb.Plan

open Chardb.Lib

variable {ν : Type}

/-! ## Objects and arrays -/

theorem objectEntries_ofMembers {ms : List (String × Json ν)} (subject : String)
    (h : ms.length ≤ MAX_PLAN_OBJECT_KEYS) :
    objectEntries (.object true (JsValue.ofMembers ms)) subject =
      .ok (ms.map fun m => (m.1, JsValue.ofJson m.2)) := by
  unfold objectEntries
  simp only
  rw [JsValue.ofMembers_eq_map, List.length_map, if_neg (by omega), mapM_ok_iff,
    List.forall₂_map_left_iff, List.forall₂_map_right_iff, List.forall₂_same]
  intro m _
  rfl

theorem strictArray_ofElems {xs : List (Json ν)} {maxLength : Nat} (subject : String)
    (h : xs.length ≤ maxLength) :
    strictArray (.array (JsValue.ofElems xs) 0 0) subject maxLength =
      .ok (xs.map JsValue.ofJson) := by
  have hmap : ∀ k, ((xs.map fun x => some (some (JsValue.ofJson x))).zipIdx k).mapM (itemOf subject) =
      .ok (xs.map JsValue.ofJson) := by
    intro k
    rw [mapM_ok_iff]
    clear h
    induction xs generalizing k with
    | nil => exact .nil
    | cons x xs ih => exact .cons rfl (ih (k + 1))
  have hsome : ((xs.map fun x => some (some (JsValue.ofJson x))).filter Option.isSome).length =
      xs.length := by
    rw [List.filter_eq_self.mpr (by simp), List.length_map]
  unfold strictArray
  simp only
  rw [JsValue.ofElems_eq_map, List.length_map, if_neg (by omega), if_neg (by simp), hsome,
    if_neg (by simp), hmap 0]

/-! ## Strings -/

theorem byteLength_cons (c : Char) (cs : List Char) :
    byteLength (c :: cs) = c.utf8Size + byteLength cs := by simp [byteLength]

theorem foldlM_addCharBytes {cs : List Char} : ∀ {bytes : Nat},
    bytes + byteLength cs ≤ CHARDB_SELECT_PLAN_MAX_BYTES →
      cs.foldlM addCharBytes bytes = .ok (bytes + byteLength cs) := by
  induction cs with
  | nil => intro bytes _; rfl
  | cons c cs ih =>
    intro bytes h
    rw [byteLength_cons, ← Nat.add_assoc] at h
    have hc : addCharBytes bytes c = .ok (bytes + c.utf8Size) := if_neg (by omega)
    have hcs := ih h
    rw [List.foldlM_cons, hc, byteLength_cons, ← Nat.add_assoc]
    exact hcs

/-- The bytes of a string value. -/
def ChardbPlanScalar.stringBytes : ChardbPlanScalar ν → Nat
  | .text s => byteLength s.toList
  | _ => 0

def scalarsBytes : List (ChardbPlanScalar ν) → Nat
  | [] => 0
  | v :: vs => v.stringBytes + scalarsBytes vs

mutual
/-- The bytes of the string values of a predicate. -/
def ChardbPlanPredicate.stringBytes : ChardbPlanPredicate ν → Nat
  | .compare _ _ value => value.stringBytes
  | .inList _ values => scalarsBytes values
  | .between _ lower upper => lower.stringBytes + upper.stringBytes
  | .null .. => 0
  | .node _ ps => stringBytesAll ps

def ChardbPlanPredicate.stringBytesAll : List (ChardbPlanPredicate ν) → Nat
  | [] => 0
  | p :: ps => p.stringBytes + stringBytesAll ps
end

/-! ## Words and entries -/

theorem compareOpOf_word (op : CompareOp) :
    compareOpOf (.text (CompareOp.word op) : JsValue ν) = some op := by cases op <;> rfl

theorem nullOpOf_word (op : NullOp) : nullOpOf (.text op.word : JsValue ν) = some op := by
  cases op <;> rfl

theorem nodeKindOf_word (kind : NodeKind) : nodeKindOf (.text kind.word : JsValue ν) = some kind := by
  cases kind <;> rfl

theorem boundedIdentifier_eq {s subject : String} :
    boundedIdentifier (.text s : JsValue ν) subject =
      if isIdentifier s then .ok s else .error (invalidPlan (subject ++ " is invalid")) := rfl

theorem boundedIdentifier_ok {s s' subject : String}
    (h : boundedIdentifier (.text s : JsValue ν) subject = .ok s') : s' = s := by
  rw [boundedIdentifier_eq] at h
  split at h
  · exact (Except.ok.inj h).symm
  · cases h

theorem sortDirectionOf_word (d : SortDirection) :
    sortDirectionOf (.text d.word : JsValue ν) = some d := by cases d <;> rfl

theorem cardinalityOf_word (c : Cardinality) : cardinalityOf (.text c.word : JsValue ν) = some c := by
  cases c <;> rfl

/-- The entries of a predicate's object. -/
def predicateEntries (p : ChardbPlanPredicate ν) : Entries ν :=
  match p.toJson with
  | .obj ms => ms.map fun m => (m.1, JsValue.ofJson m.2)
  | _ => []

theorem objectEntries_predicate (p : ChardbPlanPredicate ν) (subject : String) :
    objectEntries (JsValue.ofJson p.toJson) subject = .ok (predicateEntries p) := by
  cases p <;> rw [predicateEntries, ChardbPlanPredicate.toJson, JsValue.ofJson] <;>
    exact objectEntries_ofMembers subject (by simp [MAX_PLAN_OBJECT_KEYS])

/-- The values of the children of a node. -/
theorem childValues_toJson (subject : String) {kind : NodeKind} {ps : List (ChardbPlanPredicate ν)}
    (hlength : 2 ≤ ps.length ∧ ps.length ≤ CHARDB_SELECT_PLAN_MAX_CHILDREN) :
    childValues (predicateEntries (.node kind ps)) subject =
      .ok (ps.map fun p => JsValue.ofJson p.toJson) := by
  have harray : strictArray (.array (JsValue.ofElems (ChardbPlanPredicate.toJsonAll ps)) 0 0)
      (subject ++ ".predicates") CHARDB_SELECT_PLAN_MAX_CHILDREN =
        .ok (ps.map fun p => JsValue.ofJson p.toJson) := by
    rw [toJsonAll_eq_map, strictArray_ofElems _ (by rw [List.length_map]; exact hlength.2),
      List.map_map]
    rfl
  have hnot : ¬ (ps.length < 2 ∨ CHARDB_SELECT_PLAN_MAX_CHILDREN < ps.length) := by omega
  have hkeys : exactKeys (predicateEntries (.node kind ps)) subject ["kind", "predicates"] [] =
      .ok () := by
    simp [predicateEntries, ChardbPlanPredicate.toJson, exactKeys, Entries.has]
  have hget : (predicateEntries (.node kind ps)).get "predicates" =
      JsValue.array (JsValue.ofElems (ChardbPlanPredicate.toJsonAll ps)) 0 0 := rfl
  unfold childValues
  rw [hkeys, hget, harray]
  simp only [bind, Except.bind, List.length_map]
  rw [if_neg hnot]
  rfl

theorem childValues_length {subject : String} {kind : NodeKind} {ps : List (ChardbPlanPredicate ν)}
    {values : List (JsValue ν)}
    (h : childValues (predicateEntries (.node kind ps)) subject = .ok values) :
    2 ≤ ps.length ∧ ps.length ≤ CHARDB_SELECT_PLAN_MAX_CHILDREN := by
  have hget : (predicateEntries (.node kind ps)).get "predicates" =
      JsValue.array (JsValue.ofElems (ChardbPlanPredicate.toJsonAll ps)) 0 0 := rfl
  unfold childValues at h
  obtain ⟨_, -, h⟩ := bind_ok h
  obtain ⟨vs, hvs, h⟩ := bind_ok h
  rw [hget, toJsonAll_eq_map] at hvs
  by_cases hmax : ps.length ≤ CHARDB_SELECT_PLAN_MAX_CHILDREN
  · rw [strictArray_ofElems _ (by rw [List.length_map]; exact hmax)] at hvs
    obtain rfl := Except.ok.inj hvs
    split at h
    · cases h
    · rename_i hlength
      rw [List.length_map, List.length_map] at hlength
      exact ⟨by omega, hmax⟩
  · unfold strictArray at hvs
    simp only at hvs
    rw [JsValue.ofElems_eq_map, List.length_map, List.length_map, if_pos (by omega)] at hvs
    cases hvs

section
variable [JsNumber ν]

/-! ## Scalars -/

theorem decodedNonNullScalar_eq {value : ChardbPlanScalar ν} (h : value.IsExact) (subject : String) :
    decodedNonNullScalar (JsValue.ofJson value.toJson) subject = .ok value := by
  cases value with
  | text s => rfl
  | bool b => rfl
  | number x => exact if_pos h

theorem decodedNonNullScalar_ok {value v : ChardbPlanScalar ν} {subject : String}
    (h : decodedNonNullScalar (JsValue.ofJson value.toJson) subject = .ok v) : v = value := by
  cases value with
  | text s => exact (Except.ok.inj h).symm
  | bool b => exact (Except.ok.inj h).symm
  | number x =>
    have hx : (if JsNumber.exact x then Except.ok (ChardbPlanScalar.number x)
      else .error (invalidPlan (subject ++ " must be a JSON scalar"))) = .ok v := h
    split at hx
    · exact (Except.ok.inj hx).symm
    · cases hx

/-- The counter after a value. -/
def PredicateDecodeCounter.addBytes (c : PredicateDecodeCounter) (bytes : Nat) :
    PredicateDecodeCounter := { c with stringValueBytes := c.stringValueBytes + bytes }

theorem decodedPredicateScalar_eq {value : ChardbPlanScalar ν} {c : PredicateDecodeCounter}
    (h : value.IsExact) (hbytes : c.stringValueBytes + value.stringBytes ≤ CHARDB_SELECT_PLAN_MAX_BYTES)
    (subject : String) : decodedPredicateScalar (JsValue.ofJson value.toJson) subject c =
      .ok (value, c.addBytes value.stringBytes) := by
  unfold decodedPredicateScalar
  rw [decodedNonNullScalar_eq h]
  have hadd : addPredicateStringValueBytes value c = .ok ((), c.addBytes value.stringBytes) := by
    cases value with
    | text s =>
      have hfold : s.toList.foldlM addCharBytes c.stringValueBytes =
          .ok (c.stringValueBytes + byteLength s.toList) := foldlM_addCharBytes hbytes
      show Except.bind (s.toList.foldlM addCharBytes c.stringValueBytes) _ = _
      rw [hfold]
      rfl
    | bool b => rfl
    | number x => rfl
  show (addPredicateStringValueBytes value >>= fun _ => pure value) c = _
  rw [state_bind_eq hadd]
  rfl

theorem decodedPredicateScalar_ok {value v : ChardbPlanScalar ν} {c c' : PredicateDecodeCounter}
    {subject : String}
    (h : decodedPredicateScalar (JsValue.ofJson value.toJson) subject c = .ok (v, c')) :
    v = value := by
  unfold decodedPredicateScalar at h
  obtain ⟨w, hw, h⟩ := state_lift_bind_ok h
  obtain ⟨_, _, -, h⟩ := state_bind_ok h
  rw [← decodedNonNullScalar_ok hw]
  exact (Prod.mk.inj (Except.ok.inj h)).1.symm

theorem decodeScalars_eq {values : List (ChardbPlanScalar ν)} (subject : Nat → String) :
    ∀ {c : PredicateDecodeCounter} (k : Nat), (∀ v ∈ values, v.IsExact) →
      c.stringValueBytes + scalarsBytes values ≤ CHARDB_SELECT_PLAN_MAX_BYTES →
        StateRun (fun entry : JsValue ν × Nat => decodedPredicateScalar entry.1 (subject entry.2))
          ((values.map fun v => JsValue.ofJson v.toJson).zipIdx k) c values
          (c.addBytes (scalarsBytes values)) := by
  induction values with
  | nil => intro c k _ _; exact .nil _
  | cons v values ih =>
    intro c k hexact hbytes
    rw [scalarsBytes, ← Nat.add_assoc] at hbytes
    have hv := decodedPredicateScalar_eq (c := c) (hexact v List.mem_cons_self) (by omega) (subject k)
    have hvs := ih (c := c.addBytes v.stringBytes) (k + 1)
      (fun w hw => hexact w (List.mem_cons_of_mem _ hw)) hbytes
    have hadd : (c.addBytes v.stringBytes).addBytes (scalarsBytes values) =
        c.addBytes (scalarsBytes (v :: values)) := by
      simp [PredicateDecodeCounter.addBytes, scalarsBytes, Nat.add_assoc]
    rw [hadd] at hvs
    exact .cons hv hvs

theorem decodeScalars_ok {values vs : List (ChardbPlanScalar ν)} (subject : Nat → String) :
    ∀ {c c' : PredicateDecodeCounter} {k : Nat},
      StateRun (fun entry : JsValue ν × Nat => decodedPredicateScalar entry.1 (subject entry.2))
        ((values.map fun v => JsValue.ofJson v.toJson).zipIdx k) c vs c' → vs = values := by
  induction values generalizing vs with
  | nil => intro c c' k h; cases h; rfl
  | cons v values ih =>
    intro c c' k h
    cases h with
    | cons hx hxs => rw [decodedPredicateScalar_ok hx, ih hxs]

/-! ## Predicates -/

section
variable (levels : Nat) (subject : String)

/-- One level of reading: the node is counted, and then the kind decides. -/
theorem decodePredicate_toJson (p : ChardbPlanPredicate ν) :
    decodePredicate (levels + 1) (JsValue.ofJson p.toJson) subject = (do
      countNode
      match nodeKindOf ((predicateEntries p).get "kind") with
      | some kind => do
        let children ← childValues (predicateEntries p) subject
        let predicates ← children.zipIdx.mapM fun child =>
          decodePredicate levels child.1 (subject ++ ".predicates[" ++ toString child.2 ++ "]")
        pure (.node kind predicates)
      | none => decodeLeaf (predicateEntries p) subject) := by
  rw [decodePredicate, objectEntries_predicate]
  rfl

theorem decodeLeaf_compare (op : CompareOp) (name : String) (value : ChardbPlanScalar ν) :
    decodeLeaf (predicateEntries (.compare op name value)) subject = (do
      let column ← boundedIdentifier (.text name : JsValue ν) (subject ++ ".column")
      let value ← decodedPredicateScalar (JsValue.ofJson value.toJson) (subject ++ ".value")
      pure (.compare op column value)) := by
  have hop := compareOpOf_word (ν := ν) op
  simp [predicateEntries, ChardbPlanPredicate.toJson, JsValue.ofJson, decodeLeaf, Entries.get,
    exactKeys, Entries.has, hop, state_lift_ok]

theorem decodeLeaf_null (op : NullOp) (name : String) :
    decodeLeaf (predicateEntries (.null op name : ChardbPlanPredicate ν)) subject = (do
      let column ← boundedIdentifier (.text name : JsValue ν) (subject ++ ".column")
      pure (.null op column)) := by
  have hop := nullOpOf_word (ν := ν) op
  simp [predicateEntries, ChardbPlanPredicate.toJson, JsValue.ofJson, decodeLeaf, Entries.get,
    exactKeys, Entries.has, hop, state_lift_ok]

theorem decodeLeaf_between (name : String) (lower upper : ChardbPlanScalar ν) :
    decodeLeaf (predicateEntries (.between name lower upper)) subject = (do
      let column ← boundedIdentifier (.text name : JsValue ν) (subject ++ ".column")
      let lower ← decodedPredicateScalar (JsValue.ofJson lower.toJson) (subject ++ ".lower")
      let upper ← decodedPredicateScalar (JsValue.ofJson upper.toJson) (subject ++ ".upper")
      pure (.between column lower upper)) := by
  simp [predicateEntries, ChardbPlanPredicate.toJson, JsValue.ofJson, decodeLeaf, Entries.get,
    exactKeys, Entries.has, state_lift_ok]

theorem decodeLeaf_inList (name : String) {values : List (ChardbPlanScalar ν)}
    (hlength : 1 ≤ values.length ∧ values.length ≤ CHARDB_SELECT_PLAN_MAX_IN_VALUES) :
    decodeLeaf (predicateEntries (.inList name values)) subject = (do
      let column ← boundedIdentifier (.text name : JsValue ν) (subject ++ ".column")
      let values ← (values.map fun v => JsValue.ofJson v.toJson).zipIdx.mapM fun entry =>
        decodedPredicateScalar entry.1 (subject ++ ".values[" ++ toString entry.2 ++ "]")
      pure (.inList column values)) := by
  have harray : strictArray (.array (JsValue.ofElems (values.map ChardbPlanScalar.toJson)) 0 0)
      (subject ++ ".values") CHARDB_SELECT_PLAN_MAX_IN_VALUES =
        .ok (values.map fun v => JsValue.ofJson v.toJson) := by
    rw [strictArray_ofElems _ (by rw [List.length_map]; exact hlength.2), List.map_map]
    rfl
  have hne : values ≠ [] := List.ne_nil_of_length_pos hlength.1
  have hmax : ¬ CHARDB_SELECT_PLAN_MAX_IN_VALUES < values.length := by omega
  simp [predicateEntries, ChardbPlanPredicate.toJson, JsValue.ofJson, decodeLeaf, Entries.get,
    exactKeys, Entries.has, state_lift_ok, harray, hne, hmax]

theorem decodeLeaf_inList_length {name : String} {values : List (ChardbPlanScalar ν)}
    {c : PredicateDecodeCounter} {r : ChardbPlanPredicate ν × PredicateDecodeCounter}
    (h : decodeLeaf (predicateEntries (.inList name values)) subject c = .ok r) :
    1 ≤ values.length ∧ values.length ≤ CHARDB_SELECT_PLAN_MAX_IN_VALUES := by
  have hget : (predicateEntries (.inList name values)).get "kind" = (.text "in" : JsValue ν) := rfl
  have hvalues : (predicateEntries (.inList name values)).get "values" =
      JsValue.array (JsValue.ofElems (values.map ChardbPlanScalar.toJson)) 0 0 := rfl
  unfold decodeLeaf at h
  rw [hget] at h
  simp only [hvalues] at h
  obtain ⟨_, -, h⟩ := state_lift_bind_ok h
  obtain ⟨vs, hvs, h⟩ := state_lift_bind_ok h
  by_cases hmax : values.length ≤ CHARDB_SELECT_PLAN_MAX_IN_VALUES
  · rw [strictArray_ofElems _ (by rw [List.length_map]; exact hmax)] at hvs
    obtain rfl := Except.ok.inj hvs
    split at h
    · cases h
    · rename_i hlength
      rw [List.length_map, List.length_map] at hlength
      exact ⟨by omega, hmax⟩
  · unfold strictArray at hvs
    simp only at hvs
    rw [JsValue.ofElems_eq_map, List.length_map, List.length_map, if_pos (by omega)] at hvs
    cases hvs

end

/-! ## Reading back -/

/-- The counter after a predicate. -/
def PredicateDecodeCounter.after (c : PredicateDecodeCounter) (p : ChardbPlanPredicate ν) :
    PredicateDecodeCounter := ⟨c.nodes + p.nodes, c.stringValueBytes + p.stringBytes⟩

theorem countNode_eq {c : PredicateDecodeCounter} (h : c.nodes + 1 ≤ CHARDB_SELECT_PLAN_MAX_PREDICATES) :
    countNode c = .ok ((), ⟨c.nodes + 1, c.stringValueBytes⟩) := if_neg (by omega)

theorem decodeChildren_eq {levels : Nat} {ps : List (ChardbPlanPredicate ν)} (subject : Nat → String)
    (h : ∀ p ∈ ps, ∀ subject c, c.nodes + p.nodes ≤ CHARDB_SELECT_PLAN_MAX_PREDICATES →
      c.stringValueBytes + p.stringBytes ≤ CHARDB_SELECT_PLAN_MAX_BYTES →
        decodePredicate levels (JsValue.ofJson p.toJson) subject c = .ok (p, c.after p)) :
    ∀ (c : PredicateDecodeCounter) (k : Nat),
      c.nodes + ChardbPlanPredicate.nodesAll ps ≤ CHARDB_SELECT_PLAN_MAX_PREDICATES →
        c.stringValueBytes + ChardbPlanPredicate.stringBytesAll ps ≤ CHARDB_SELECT_PLAN_MAX_BYTES →
          StateRun (fun child : JsValue ν × Nat => decodePredicate levels child.1 (subject child.2))
            ((ps.map fun p => JsValue.ofJson p.toJson).zipIdx k) c ps
            ⟨c.nodes + ChardbPlanPredicate.nodesAll ps,
              c.stringValueBytes + ChardbPlanPredicate.stringBytesAll ps⟩ := by
  induction ps with
  | nil => intro c k _ _; exact .nil _
  | cons p ps ih =>
    intro c k hnodes hbytes
    rw [ChardbPlanPredicate.nodesAll, ← Nat.add_assoc] at hnodes ⊢
    rw [ChardbPlanPredicate.stringBytesAll, ← Nat.add_assoc] at hbytes ⊢
    exact .cons (h p List.mem_cons_self (subject k) c (by omega) (by omega))
      (ih (fun q hq => h q (List.mem_cons_of_mem _ hq)) (c.after p) (k + 1) hnodes hbytes)

/-- The validator reads back what is within the limits. -/
theorem decodePredicate_valid {levels : Nat} {p : ChardbPlanPredicate ν} (hvalid : Valid levels p) :
    ∀ subject c, c.nodes + p.nodes ≤ CHARDB_SELECT_PLAN_MAX_PREDICATES →
      c.stringValueBytes + p.stringBytes ≤ CHARDB_SELECT_PLAN_MAX_BYTES →
        decodePredicate levels (JsValue.ofJson p.toJson) subject c = .ok (p, c.after p) := by
  induction hvalid with
  | @compare levels op name value hname hvalue =>
    intro subject c hnodes hbytes
    rw [ChardbPlanPredicate.nodes] at hnodes
    · rw [decodePredicate_toJson, state_bind_eq (countNode_eq hnodes)]
      show decodeLeaf _ subject _ = _
      have hscalar := decodedPredicateScalar_eq (c := ⟨c.nodes + 1, c.stringValueBytes⟩) hvalue
        hbytes (subject ++ ".value")
      rw [decodeLeaf_compare, boundedIdentifier_eq, if_pos hname, state_lift_ok, pure_bind,
        state_bind_eq hscalar]
      simp [PredicateDecodeCounter.after, PredicateDecodeCounter.addBytes, ChardbPlanPredicate.nodes,
        ChardbPlanPredicate.stringBytes, state_pure_eq]
    · simp
  | @inList levels name values hname hlength hvalues =>
    intro subject c hnodes hbytes
    rw [ChardbPlanPredicate.nodes] at hnodes
    · rw [decodePredicate_toJson, state_bind_eq (countNode_eq hnodes)]
      show decodeLeaf _ subject _ = _
      have hrun := decodeScalars_eq (c := ⟨c.nodes + 1, c.stringValueBytes⟩)
        (fun k => subject ++ ".values[" ++ toString k ++ "]") 0 hvalues hbytes
      rw [decodeLeaf_inList _ _ hlength, boundedIdentifier_eq, if_pos hname, state_lift_ok, pure_bind,
        state_bind_eq (state_mapM_ok_iff.mpr hrun)]
      simp [PredicateDecodeCounter.after, PredicateDecodeCounter.addBytes, ChardbPlanPredicate.nodes,
        ChardbPlanPredicate.stringBytes, state_pure_eq]
    · simp
  | @between levels name lower upper hname hlower hupper =>
    intro subject c hnodes hbytes
    rw [ChardbPlanPredicate.nodes] at hnodes
    · rw [ChardbPlanPredicate.stringBytes, ← Nat.add_assoc] at hbytes
      rw [decodePredicate_toJson, state_bind_eq (countNode_eq hnodes)]
      show decodeLeaf _ subject _ = _
      have hl := decodedPredicateScalar_eq (c := ⟨c.nodes + 1, c.stringValueBytes⟩) hlower
        (by simp only; omega) (subject ++ ".lower")
      have hu := decodedPredicateScalar_eq
        (c := (⟨c.nodes + 1, c.stringValueBytes⟩ : PredicateDecodeCounter).addBytes lower.stringBytes)
        hupper hbytes (subject ++ ".upper")
      rw [decodeLeaf_between, boundedIdentifier_eq, if_pos hname, state_lift_ok, pure_bind,
        state_bind_eq hl, state_bind_eq hu]
      simp [PredicateDecodeCounter.after, PredicateDecodeCounter.addBytes, ChardbPlanPredicate.nodes,
        ChardbPlanPredicate.stringBytes, state_pure_eq, Nat.add_assoc]
    · simp
  | @null levels op name hname =>
    intro subject c hnodes hbytes
    rw [ChardbPlanPredicate.nodes] at hnodes
    · rw [decodePredicate_toJson, state_bind_eq (countNode_eq hnodes)]
      show decodeLeaf _ subject _ = _
      rw [decodeLeaf_null, boundedIdentifier_eq, if_pos hname, state_lift_ok, pure_bind]
      simp [PredicateDecodeCounter.after, ChardbPlanPredicate.nodes, ChardbPlanPredicate.stringBytes,
        state_pure_eq]
    · simp
  | @node levels kind ps hlength hps ih =>
    intro subject c hnodes hbytes
    rw [ChardbPlanPredicate.nodes] at hnodes
    rw [ChardbPlanPredicate.stringBytes] at hbytes
    have hkind : (predicateEntries (.node kind ps)).get "kind" = (.text kind.word : JsValue ν) := rfl
    have hrun := decodeChildren_eq (fun k => subject ++ ".predicates[" ++ toString k ++ "]") ih
      ⟨c.nodes + 1, c.stringValueBytes⟩ 0 (by simp only; omega) hbytes
    rw [decodePredicate_toJson, state_bind_eq (countNode_eq (by omega)), hkind, nodeKindOf_word]
    simp only
    rw [childValues_toJson subject hlength, state_lift_ok, pure_bind,
      state_bind_eq (state_mapM_ok_iff.mpr hrun)]
    simp [PredicateDecodeCounter.after, ChardbPlanPredicate.nodes, ChardbPlanPredicate.stringBytes,
      state_pure_eq, Nat.add_assoc]

theorem decodeChildren_ok {levels : Nat} {ps : List (ChardbPlanPredicate ν)} (subject : Nat → String)
    (h : ∀ p ∈ ps, ∀ subject c q c',
      decodePredicate levels (JsValue.ofJson p.toJson) subject c = .ok (q, c') → q = p) :
    ∀ {qs : List (ChardbPlanPredicate ν)} {c c' : PredicateDecodeCounter} {k : Nat},
      StateRun (fun child : JsValue ν × Nat => decodePredicate levels child.1 (subject child.2))
        ((ps.map fun p => JsValue.ofJson p.toJson).zipIdx k) c qs c' → qs = ps := by
  induction ps with
  | nil => intro qs c c' k hrun; cases hrun; rfl
  | cons p ps ih =>
    intro qs c c' k hrun
    cases hrun with
    | cons hx hxs =>
      rw [h p List.mem_cons_self _ _ _ _ hx, ih (fun q hq => h q (List.mem_cons_of_mem _ hq)) hxs]

/-- What the validator reads of the JSON of a predicate is the predicate. -/
theorem decodePredicate_identity {p : ChardbPlanPredicate ν} : ∀ {levels : Nat} {subject : String}
    {c c' : PredicateDecodeCounter} {q : ChardbPlanPredicate ν},
      decodePredicate levels (JsValue.ofJson p.toJson) subject c = .ok (q, c') → q = p := by
  induction p with
  | compare op name value =>
    intro levels subject c c' q h
    cases levels with
    | zero => cases h
    | succ levels =>
      rw [decodePredicate_toJson] at h
      obtain ⟨_, _, -, h⟩ := state_bind_ok h
      replace h : decodeLeaf _ subject _ = .ok (q, c') := h
      rw [decodeLeaf_compare] at h
      obtain ⟨column, hcolumn, h⟩ := state_lift_bind_ok h
      obtain ⟨v, _, hv, h⟩ := state_bind_ok h
      rw [← (Prod.mk.inj (Except.ok.inj h)).1, boundedIdentifier_ok hcolumn,
        decodedPredicateScalar_ok hv]
  | inList name values =>
    intro levels subject c c' q h
    cases levels with
    | zero => cases h
    | succ levels =>
      rw [decodePredicate_toJson] at h
      obtain ⟨_, _, -, h⟩ := state_bind_ok h
      replace h : decodeLeaf _ subject _ = .ok (q, c') := h
      rw [decodeLeaf_inList _ _ (decodeLeaf_inList_length subject h)] at h
      obtain ⟨column, hcolumn, h⟩ := state_lift_bind_ok h
      obtain ⟨vs, _, hvs, h⟩ := state_bind_ok h
      rw [← (Prod.mk.inj (Except.ok.inj h)).1, boundedIdentifier_ok hcolumn,
        decodeScalars_ok (fun k => subject ++ ".values[" ++ toString k ++ "]")
          (state_mapM_ok_iff.mp hvs)]
  | between name lower upper =>
    intro levels subject c c' q h
    cases levels with
    | zero => cases h
    | succ levels =>
      rw [decodePredicate_toJson] at h
      obtain ⟨_, _, -, h⟩ := state_bind_ok h
      replace h : decodeLeaf _ subject _ = .ok (q, c') := h
      rw [decodeLeaf_between] at h
      obtain ⟨column, hcolumn, h⟩ := state_lift_bind_ok h
      obtain ⟨l, _, hl, h⟩ := state_bind_ok h
      obtain ⟨u, _, hu, h⟩ := state_bind_ok h
      rw [← (Prod.mk.inj (Except.ok.inj h)).1, boundedIdentifier_ok hcolumn,
        decodedPredicateScalar_ok hl, decodedPredicateScalar_ok hu]
  | null op name =>
    intro levels subject c c' q h
    cases levels with
    | zero => cases h
    | succ levels =>
      rw [decodePredicate_toJson] at h
      obtain ⟨_, _, -, h⟩ := state_bind_ok h
      replace h : decodeLeaf _ subject _ = .ok (q, c') := h
      rw [decodeLeaf_null] at h
      obtain ⟨column, hcolumn, h⟩ := state_lift_bind_ok h
      rw [← (Prod.mk.inj (Except.ok.inj h)).1, boundedIdentifier_ok hcolumn]
  | node kind ps ih =>
    intro levels subject c c' q h
    cases levels with
    | zero => cases h
    | succ levels =>
      have hkind : (predicateEntries (.node kind ps)).get "kind" = (.text kind.word : JsValue ν) := rfl
      rw [decodePredicate_toJson] at h
      obtain ⟨_, _, -, h⟩ := state_bind_ok h
      rw [hkind, nodeKindOf_word] at h
      simp only at h
      obtain ⟨values, hvalues, h⟩ := state_lift_bind_ok h
      rw [childValues_toJson subject (childValues_length hvalues)] at hvalues
      obtain rfl := Except.ok.inj hvalues
      obtain ⟨qs, _, hqs, h⟩ := state_bind_ok h
      have hrun := state_mapM_ok_iff.mp hqs
      rw [← (Prod.mk.inj (Except.ok.inj h)).1, decodeChildren_ok
        (fun k => subject ++ ".predicates[" ++ toString k ++ "]")
        (fun p hp _ _ _ _ hq => ih p hp hq) hrun]

end

/-! ## Orders -/

theorem decodeOrderItem_toJson (item : OrderItem) (k : Nat) :
    decodeOrderItem (JsValue.ofJson (item.toJson : Json ν), k) = (do
      let column ← boundedIdentifier (.text item.column : JsValue ν)
        ("plan.orderBy[" ++ toString k ++ "]" ++ ".column")
      pure ⟨column, item.direction⟩) := by
  have hdirection := sortDirectionOf_word (ν := ν) item.direction
  have hentries : ∀ subject, objectEntries (JsValue.ofJson (item.toJson : Json ν)) subject =
      .ok [("column", .text item.column), ("direction", .text item.direction.word)] := fun subject => by
    rw [OrderItem.toJson, JsValue.ofJson, objectEntries_ofMembers _ (by simp [MAX_PLAN_OBJECT_KEYS])]
    rfl
  unfold decodeOrderItem
  dsimp only
  generalize "plan.orderBy[" ++ toString k ++ "]" = subject
  rw [hentries]
  simp [exactKeys, Entries.has, Entries.get, hdirection, bind, Except.bind]

theorem decodeOrderItems_eq {items : List OrderItem} (h : ∀ item ∈ items, isIdentifier item.column = true) :
    ∀ k, List.Forall₂ (fun entry item => decodeOrderItem entry = .ok item)
      ((items.map fun item => JsValue.ofJson (item.toJson : Json ν)).zipIdx k) items := by
  induction items with
  | nil => intro k; exact .nil
  | cons item items ih =>
    intro k
    refine .cons ?_ (ih (fun i hi => h i (List.mem_cons_of_mem _ hi)) (k + 1))
    rw [decodeOrderItem_toJson, boundedIdentifier_eq, if_pos (h item List.mem_cons_self)]
    rfl

theorem decodeOrderItems_ok {items items' : List OrderItem} : ∀ {k : Nat},
    List.Forall₂ (fun entry item => decodeOrderItem entry = .ok item)
      ((items.map fun item => JsValue.ofJson (item.toJson : Json ν)).zipIdx k) items' →
        items' = items := by
  induction items generalizing items' with
  | nil => intro k h; cases h; rfl
  | cons item items ih =>
    intro k h
    cases h with
    | cons hx hxs =>
      rw [decodeOrderItem_toJson] at hx
      obtain ⟨column, hcolumn, hx⟩ := bind_ok hx
      rw [← Except.ok.inj hx, boundedIdentifier_ok hcolumn, ih hxs]

/-- The items of an order, as a value. -/
def orderValue (items : List OrderItem) : JsValue ν :=
  .array (JsValue.ofElems (items.map OrderItem.toJson)) 0 0

theorem strictArray_order {items : List OrderItem} (h : items.length ≤ CHARDB_SELECT_PLAN_MAX_ORDER_BY) :
    strictArray (orderValue items : JsValue ν) "plan.orderBy" CHARDB_SELECT_PLAN_MAX_ORDER_BY =
      .ok (items.map fun item => JsValue.ofJson (item.toJson : Json ν)) := by
  rw [orderValue, strictArray_ofElems _ (by rw [List.length_map]; exact h), List.map_map]
  rfl

theorem decodeOrderBy_eq {items : List OrderItem}
    (hlength : 1 ≤ items.length ∧ items.length ≤ CHARDB_SELECT_PLAN_MAX_ORDER_BY)
    (h : ∀ item ∈ items, isIdentifier item.column = true) :
    decodeOrderBy (orderValue items : JsValue ν) = .ok items := by
  unfold decodeOrderBy
  rw [strictArray_order hlength.2]
  simp only [bind, Except.bind, List.length_map]
  rw [if_neg (by omega)]
  exact mapM_ok_iff.mpr (decodeOrderItems_eq h 0)

theorem decodeOrderBy_ok {items items' : List OrderItem}
    (h : decodeOrderBy (orderValue items : JsValue ν) = .ok items') : items' = items := by
  unfold decodeOrderBy at h
  obtain ⟨values, hvalues, h⟩ := bind_ok h
  by_cases hmax : items.length ≤ CHARDB_SELECT_PLAN_MAX_ORDER_BY
  · rw [strictArray_order hmax] at hvalues
    obtain rfl := Except.ok.inj hvalues
    split at h
    · cases h
    · exact decodeOrderItems_ok (mapM_ok_iff.mp h)
  · unfold strictArray orderValue at hvalues
    simp only at hvalues
    rw [JsValue.ofElems_eq_map, List.length_map, List.length_map, if_pos (by omega)] at hvalues
    cases hvalues

section
variable [JsNumber ν]

/-! ## Limits and plans -/

theorem decodeLimit_eq {n : Int} (h : 1 ≤ n ∧ n ≤ CHARDB_SELECT_PLAN_MAX_LIMIT) :
    decodeLimit (.number (JsNumber.ofInt n) : JsValue ν) = .ok n := by
  have hn : n.natAbs < 2 ^ 53 := by
    have := h.2
    unfold CHARDB_SELECT_PLAN_MAX_LIMIT at this
    omega
  simp [decodeLimit, safeIntegerOf, JsNumber.toInt?_ofInt n hn, h]

theorem decodeLimit_ok {n n' : Int} (hsafe : IsSafeInteger n)
    (h : decodeLimit (.number (JsNumber.ofInt n) : JsValue ν) = .ok n') : n' = n := by
  simp only [decodeLimit, safeIntegerOf, JsNumber.toInt?_ofInt n hsafe.natAbs_lt] at h
  split at h
  · exact (Except.ok.inj h).symm
  · cases h

/-- An optional part of a plan. -/
def optionalPart {α β : Type} (part : Option α) (decode : α → Except Thrown β) :
    Except Thrown (Option β) :=
  match part with
  | some a => (decode a).map some
  | none => .ok none

theorem optionalPart_eq {α : Type} {part : Option α} {decode : α → Except Thrown α}
    (h : ∀ a, part = some a → decode a = .ok a) : optionalPart part decode = .ok part := by
  cases part with
  | none => rfl
  | some a => rw [optionalPart, h a rfl]; rfl

theorem optionalPart_ok {α : Type} {part part' : Option α} {decode : α → Except Thrown α}
    (h : optionalPart part decode = .ok part') (hd : ∀ a a', part = some a → decode a = .ok a' → a' = a) :
    part' = part := by
  cases part with
  | none => exact (Except.ok.inj h).symm
  | some a =>
    obtain ⟨a', ha', rfl⟩ := map_ok h
    rw [hd a a' rfl ha']

/-- The entries of a plan's object. -/
def planEntries (plan : ChardbSelectPlan ν) : Entries ν :=
  [("version", .number (JsNumber.ofInt CHARDB_SELECT_PLAN_VERSION)), ("kind", .text "select"),
    ("table", .text plan.table), ("selection", JsValue.ofJson (.obj [("kind", .str "all")]))] ++
    (plan.where.map fun p => ("where", JsValue.ofJson p.toJson)).toList ++
    (plan.orderBy.map fun items => ("orderBy", orderValue items)).toList ++
    (plan.limit.map fun n => ("limit", .number (JsNumber.ofInt n))).toList ++
    [("cardinality", .text plan.cardinality.word)]

theorem objectEntries_plan (plan : ChardbSelectPlan ν) :
    objectEntries (JsValue.ofJson plan.toJson) "plan" = .ok (planEntries plan) := by
  obtain ⟨table, predicate, orderBy, limit, cardinality⟩ := plan
  rw [ChardbSelectPlan.toJson, JsValue.ofJson]
  cases predicate <;> cases orderBy <;> cases limit <;>
    exact objectEntries_ofMembers _ (by simp [MAX_PLAN_OBJECT_KEYS])

theorem planEntries_exactKeys (plan : ChardbSelectPlan ν) :
    exactKeys (planEntries plan) "plan" ["version", "kind", "table", "selection", "cardinality"]
      ["where", "orderBy", "limit"] = .ok () := by
  obtain ⟨table, predicate, orderBy, limit, cardinality⟩ := plan
  cases predicate <;> cases orderBy <;> cases limit <;> rfl

theorem planEntries_cardinality (plan : ChardbSelectPlan ν) :
    (planEntries plan).get "cardinality" = .text plan.cardinality.word := by
  obtain ⟨table, predicate, orderBy, limit, cardinality⟩ := plan
  cases predicate <;> cases orderBy <;> cases limit <;> rfl

theorem planEntries_where {α : Type} (plan : ChardbSelectPlan ν)
    (decode : JsValue ν → Except Thrown α) : (planEntries plan).optional "where" decode =
      optionalPart plan.where fun p => decode (JsValue.ofJson p.toJson) := by
  obtain ⟨table, predicate, orderBy, limit, cardinality⟩ := plan
  cases predicate <;> cases orderBy <;> cases limit <;> rfl

theorem planEntries_orderBy {α : Type} (plan : ChardbSelectPlan ν)
    (decode : JsValue ν → Except Thrown α) : (planEntries plan).optional "orderBy" decode =
      optionalPart plan.orderBy fun items => decode (orderValue items) := by
  obtain ⟨table, predicate, orderBy, limit, cardinality⟩ := plan
  cases predicate <;> cases orderBy <;> cases limit <;> rfl

theorem planEntries_limit {α : Type} (plan : ChardbSelectPlan ν)
    (decode : JsValue ν → Except Thrown α) : (planEntries plan).optional "limit" decode =
      optionalPart plan.limit fun n => decode (.number (JsNumber.ofInt n)) := by
  obtain ⟨table, predicate, orderBy, limit, cardinality⟩ := plan
  cases predicate <;> cases orderBy <;> cases limit <;> rfl

/-- What the validator makes of the JSON of a plan. -/
theorem validate_toJson (plan : ChardbSelectPlan ν) :
    validateChardbSelectPlanV1 (JsValue.ofJson plan.toJson) = (do
      let predicate ← optionalPart plan.where fun p => decodeWhere (JsValue.ofJson p.toJson)
      let orderBy ← optionalPart plan.orderBy fun items => decodeOrderBy (orderValue items : JsValue ν)
      let limit ← optionalPart plan.limit fun n => decodeLimit (.number (JsNumber.ofInt n) : JsValue ν)
      let table ← boundedIdentifier (.text plan.table : JsValue ν) "plan.table"
      assertPlanBytes ⟨table, predicate, orderBy, limit, plan.cardinality⟩) := by
  have hversion : safeIntegerOf (.number (JsNumber.ofInt CHARDB_SELECT_PLAN_VERSION) : JsValue ν) =
      some CHARDB_SELECT_PLAN_VERSION := JsNumber.toInt?_ofInt _ (by decide)
  have hcardinality := cardinalityOf_word (ν := ν) plan.cardinality
  have hselection : decodeSelection (JsValue.ofJson (.obj [("kind", .str "all")]) : JsValue ν) =
      .ok () := by
    simp [decodeSelection, JsValue.ofJson, JsValue.ofMembers, objectEntries, MAX_PLAN_OBJECT_KEYS,
      entryOf, exactKeys, Entries.has, Entries.get, isText, bind, Except.bind, pure, Except.pure]
  have hget : (planEntries plan).get "version" = .number (JsNumber.ofInt CHARDB_SELECT_PLAN_VERSION) ∧
      (planEntries plan).get "kind" = .text "select" ∧
      (planEntries plan).get "selection" = JsValue.ofJson (.obj [("kind", .str "all")]) ∧
      (planEntries plan).get "table" = .text plan.table := ⟨rfl, rfl, rfl, rfl⟩
  unfold validateChardbSelectPlanV1
  rw [objectEntries_plan]
  simp only [bind, Except.bind, planEntries_exactKeys, planEntries_cardinality, planEntries_where,
    planEntries_orderBy, planEntries_limit, hget.1, hget.2.1, hget.2.2.1, hget.2.2.2, hversion,
    hcardinality, hselection]
  rfl

theorem decodeWhere_ok {p q : ChardbPlanPredicate ν} (h : decodeWhere (JsValue.ofJson p.toJson) = .ok q) :
    q = p := by
  obtain ⟨⟨q', c'⟩, hq, h⟩ := bind_ok h
  rw [← Except.ok.inj h]
  exact decodePredicate_identity hq

/-- The limits that are stated for a plan. -/
structure PlanWithin (plan : ChardbSelectPlan ν) : Prop where
  predicate : ∀ p, plan.where = some p → Valid CHARDB_SELECT_PLAN_MAX_DEPTH p ∧
    p.nodes ≤ CHARDB_SELECT_PLAN_MAX_PREDICATES ∧ p.stringBytes ≤ CHARDB_SELECT_PLAN_MAX_BYTES
  orderBy : ∀ items, plan.orderBy = some items →
    (1 ≤ items.length ∧ items.length ≤ CHARDB_SELECT_PLAN_MAX_ORDER_BY) ∧
      ∀ item ∈ items, isIdentifier item.column = true
  limit : ∀ n, plan.limit = some n → 1 ≤ n ∧ n ≤ CHARDB_SELECT_PLAN_MAX_LIMIT
  table : isIdentifier plan.table = true
  bytes : byteLength plan.toJson.stringify ≤ CHARDB_SELECT_PLAN_MAX_BYTES

/-- The validator accepts every plan within the limits, as it is. -/
theorem validate_within {plan : ChardbSelectPlan ν} (h : PlanWithin plan) :
    validateChardbSelectPlanV1 (JsValue.ofJson plan.toJson) = .ok plan := by
  have hwhere : ∀ p, plan.where = some p → decodeWhere (JsValue.ofJson p.toJson) = .ok p := by
    intro p hp
    obtain ⟨hvalid, hnodes, hbytes⟩ := h.predicate p hp
    have hdecode := decodePredicate_valid hvalid "plan.where" ⟨0, 0⟩ (by simpa using hnodes)
      (by simpa using hbytes)
    unfold decodeWhere
    rw [hdecode]
    rfl
  have hassert : assertPlanBytes plan = .ok plan := by
    unfold assertPlanBytes
    rw [if_neg (Nat.not_lt.mpr h.bytes)]
  rw [validate_toJson, optionalPart_eq hwhere,
    optionalPart_eq fun items hitems => decodeOrderBy_eq (h.orderBy items hitems).1
      (h.orderBy items hitems).2,
    optionalPart_eq fun n hn => decodeLimit_eq (h.limit n hn), boundedIdentifier_eq, if_pos h.table]
  simp only [bind, Except.bind]
  exact hassert

/-- The validator is the identity on the plans that it accepts. -/
theorem validate_identity {plan q : ChardbSelectPlan ν}
    (hlimit : ∀ n, plan.limit = some n → IsSafeInteger n)
    (h : validateChardbSelectPlanV1 (JsValue.ofJson plan.toJson) = .ok q) : q = plan := by
  rw [validate_toJson] at h
  obtain ⟨predicate, hpredicate, h⟩ := bind_ok h
  obtain ⟨orderBy, horderBy, h⟩ := bind_ok h
  obtain ⟨limit, hlimit', h⟩ := bind_ok h
  obtain ⟨table, htable, h⟩ := bind_ok h
  have h₁ := optionalPart_ok hpredicate fun p p' _ hp => decodeWhere_ok hp
  have h₂ := optionalPart_ok horderBy fun items items' _ hitems => decodeOrderBy_ok hitems
  have h₃ := optionalPart_ok hlimit' fun n n' hn hdecode => decodeLimit_ok (hlimit n hn) hdecode
  have h₄ := boundedIdentifier_ok htable
  unfold assertPlanBytes at h
  split at h
  · cases h
  · rw [← Except.ok.inj h, h₁, h₂, h₃, h₄]

/-! ## Transport -/

theorem scalar_exact {v : ChardbPlanScalar ν} (h : v.IsExact) : v.toJson.Exact := by
  cases v with
  | text s => exact str_exact s
  | bool b => simp [ChardbPlanScalar.toJson, Json.Exact]
  | number x =>
    rw [ChardbPlanScalar.toJson, Json.Exact]
    exact h

theorem predicate_exact {levels : Nat} {p : ChardbPlanPredicate ν} (h : Valid levels p) :
    p.toJson.Exact := by
  induction h with
  | compare op hname hvalue =>
    rw [ChardbPlanPredicate.toJson, Json.Exact]
    refine ⟨?_, ?_⟩
    · show OwnKeys ["kind", "op", "column", "value"]
      decide
    · simp [Json.MembersExact, str_exact, scalar_exact hvalue]
  | inList hname hlength hvalues =>
    rw [ChardbPlanPredicate.toJson, Json.Exact]
    refine ⟨?_, ?_⟩
    · show OwnKeys ["kind", "column", "values"]
      decide
    · simp [Json.MembersExact, Json.Exact,
        elemsExact_map fun v hv => scalar_exact (hvalues v hv)]
  | between hname hlower hupper =>
    rw [ChardbPlanPredicate.toJson, Json.Exact]
    refine ⟨?_, ?_⟩
    · show OwnKeys ["kind", "column", "lower", "upper"]
      decide
    · simp [Json.MembersExact, str_exact, scalar_exact hlower, scalar_exact hupper]
  | null op hname =>
    rw [ChardbPlanPredicate.toJson, Json.Exact]
    refine ⟨?_, ?_⟩
    · show OwnKeys ["kind", "op", "column"]
      decide
    · simp [Json.MembersExact, str_exact]
  | node kind hlength _ ih =>
    rw [ChardbPlanPredicate.toJson, Json.Exact, toJsonAll_eq_map]
    refine ⟨?_, ?_⟩
    · show OwnKeys ["kind", "predicates"]
      decide
    · simp [Json.MembersExact, Json.Exact, elemsExact_map ih]

theorem orderItem_exact (item : OrderItem) : (item.toJson : Json ν).Exact := by
  rw [OrderItem.toJson, Json.Exact]
  refine ⟨?_, ?_⟩
  · show OwnKeys ["column", "direction"]
    decide
  · simp [Json.MembersExact, str_exact]

/-- JSON text keeps a plan. -/
theorem plan_exact {plan : ChardbSelectPlan ν}
    (hvalid : ∀ p, plan.where = some p → ∃ levels, Valid levels p)
    (hsafe : ∀ n, plan.limit = some n → IsSafeInteger n) : plan.toJson.Exact := by
  have hversion : (Json.int CHARDB_SELECT_PLAN_VERSION : Json ν).Exact := Json.int_exact (by decide)
  have hselection : (Json.obj [("kind", .str "all")] : Json ν).Exact := by
    rw [Json.Exact]
    refine ⟨?_, by simp [Json.MembersExact, str_exact]⟩
    show OwnKeys ["kind"]
    decide
  have hwhere : ∀ p, plan.where = some p → p.toJson.Exact := by
    intro p hp
    obtain ⟨levels, hlevels⟩ := hvalid p hp
    exact predicate_exact hlevels
  have horder : ∀ items : List OrderItem, Json.ElemsExact (items.map (OrderItem.toJson (ν := ν))) :=
    fun items => elemsExact_map fun item _ => orderItem_exact item
  have hlimit : ∀ n, plan.limit = some n → (Json.int n : Json ν).Exact := fun n hn =>
    Json.int_exact (hsafe n hn).natAbs_lt
  obtain ⟨table, predicate, orderBy, limit, cardinality⟩ := plan
  rw [ChardbSelectPlan.toJson, Json.Exact]
  cases predicate <;> cases orderBy <;> cases limit <;>
    refine ⟨by simp only [Option.map_none, Option.map_some, Option.toList_none, Option.toList_some,
      List.map_append, List.map_cons, List.map_nil, List.append_nil]; decide, ?_⟩ <;>
    simp_all [Json.MembersExact, Json.Exact]

theorem PlanWithin.safeLimit {plan : ChardbSelectPlan ν} (h : PlanWithin plan) :
    ∀ n, plan.limit = some n → IsSafeInteger n := by
  intro n hn
  obtain ⟨hmin, hmax⟩ := h.limit n hn
  unfold CHARDB_SELECT_PLAN_MAX_LIMIT at hmax
  unfold IsSafeInteger MAX_SAFE_INTEGER
  omega

/-- A plan within the limits comes back out of its JSON text and the validator. -/
theorem plan_round_trip {plan : ChardbSelectPlan ν} (h : PlanWithin plan) :
    ∃ j, Json.parse plan.toJson.toText = some j ∧
      validateChardbSelectPlanV1 (JsValue.ofJson j) = .ok plan :=
  ⟨plan.toJson, Json.parse_toText (plan_exact (fun p hp => ⟨_, (h.predicate p hp).1⟩) h.safeLimit),
    validate_within h⟩

end

end Chardb.Plan
