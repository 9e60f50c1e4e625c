import Chardb.Intervals.IntervalMap
import Chardb.Intervals.WireIntervals
import Chardb.Lib.JsonParse
import Mathlib.Tactic.Ring

/-!
# Intervals over the wire and back

An interval comes back from the wire unless a string of its keys starts like a tagged value. JSON
between the two directions changes nothing but `-0`, which comes back as `0`.
-/

namespace Chardb.Intervals

open Chardb.Lib

variable {ν : Type}

/-! ## Tagged strings -/

/-- A string that reads as a byte array or a bigint. -/
def IsTagged (s : String) : Prop :=
  bytesTag.isPrefixOf s.toList = true ∨ bigintTag.isPrefixOf s.toList = true

def IntervalScalar.IsTagged : IntervalScalar ν → Prop
  | .string s => Intervals.IsTagged s
  | .number _ | .bigint _ | .bytes _ => False

def Endpoint.Untagged (e : Endpoint (IntervalKey ν)) : Prop :=
  ∀ key ∈ e.keys, ∀ x ∈ key, ¬x.IsTagged

/-- No string of the keys of the ends starts with a tag. -/
def Interval.Untagged (iv : Interval (IntervalKey ν)) : Prop := iv.lo.Untagged ∧ iv.hi.Untagged

/-! ## Digits -/

theorem foldl_digits (ds : List Nat) (acc : Nat) :
    ds.foldl (fun n d => n * 10 + d) acc = acc * 10 ^ ds.length + Nat.ofDigits 10 ds.reverse := by
  induction ds generalizing acc with
  | nil => simp
  | cons d ds ih =>
    rw [List.foldl_cons, ih, List.reverse_cons, Nat.ofDigits_append, Nat.ofDigits_singleton,
      List.length_cons, List.length_reverse, Nat.pow_succ]
    ring

theorem isDigit_toNat {c : Char} (h : c.isDigit = true) : 48 ≤ c.toNat ∧ c.toNat ≤ 57 := by
  obtain ⟨h₁, h₂⟩ := Bool.and_eq_true_iff.mp h
  exact ⟨of_decide_eq_true h₁, of_decide_eq_true h₂⟩

theorem natOfDigits?_natText (n : Nat) : natOfDigits? 10 (natText n) = some (n : Int) := by
  have hdigits : ∀ c ∈ natText n, hexDigit? c = some (digitVal c) ∧ digitVal c < 10 := by
    intro c hc
    have hd := (natText_digits n c hc).1
    have := isDigit_toNat hd
    refine ⟨by rw [hexDigit?, if_pos hd, digitVal], ?_⟩
    unfold digitVal
    omega
  have hmapM : (natText n).mapM hexDigit? = some ((natText n).map digitVal) := by
    generalize natText n = cs at hdigits
    induction cs with
    | nil => rfl
    | cons c cs ih =>
      obtain ⟨hc, hcs⟩ := List.forall_mem_cons.mp hdigits
      rw [List.mapM_cons, hc.1, ih hcs]
      rfl
  have hvalue := natOfText_natText n
  unfold natOfDigits?
  rw [hmapM]
  cases hds : (natText n).map digitVal with
  | nil => exact absurd (List.map_eq_nil_iff.mp hds) (natText_ne_nil n)
  | cons d ds =>
    have hall : ((d :: ds).all (· < 10)) = true := by
      rw [← hds, List.all_map, List.all_eq_true]
      exact fun c hc => decide_eq_true (hdigits c hc).2
    dsimp only
    rw [if_pos hall, foldl_digits, Nat.zero_mul, Nat.zero_add, ← hds]
    exact congrArg some (congrArg _ hvalue)

theorem trim_eq {cs : List Char} (h : ∀ c ∈ cs, isJsSpace c = false) :
    ((cs.dropWhile isJsSpace).reverse.dropWhile isJsSpace).reverse = cs := by
  have hdrop : ∀ {ds : List Char}, (∀ c ∈ ds, isJsSpace c = false) → ds.dropWhile isJsSpace = ds := by
    intro ds hds
    cases ds with
    | nil => rfl
    | cons d ds => rw [List.dropWhile_cons_of_neg (by simp [hds d List.mem_cons_self])]
  rw [hdrop h, hdrop fun c hc => h c (List.mem_reverse.mp hc), List.reverse_reverse]

theorem isJsSpace_digit {c : Char} (h : c.isDigit = true) : isJsSpace c = false := by
  have := isDigit_toNat h
  unfold isJsSpace
  simp
  omega

theorem bigIntOfText_intText (i : Int) : bigIntOfText (intText i) = some i := by
  have hdigit : ∀ c ∈ natText i.natAbs, c.isDigit = true := fun c hc => (natText_digits _ c hc).1
  unfold intText
  split
  · have hspace : ∀ c ∈ '-' :: natText i.natAbs, isJsSpace c = false :=
      List.forall_mem_cons.mpr ⟨by decide, fun c hc => isJsSpace_digit (hdigit c hc)⟩
    unfold bigIntOfText
    rw [trim_eq hspace]
    show (natOfDigits? 10 (natText i.natAbs)).map (fun n => -n) = _
    rw [natOfDigits?_natText, Option.map_some, Option.some.injEq]
    omega
  · unfold bigIntOfText
    rw [trim_eq fun c hc => isJsSpace_digit (hdigit c hc)]
    have hvalue : natOfDigits? 10 (natText i.natAbs) = some i := by
      rw [natOfDigits?_natText]
      exact congrArg some (by omega)
    have hne := natText_ne_nil i.natAbs
    generalize natText i.natAbs = cs at hdigit hvalue hne
    split
    · exact absurd rfl hne
    all_goals first
      | exact hvalue
      | exact absurd (hdigit _ List.mem_cons_self) (by decide)
      | exact absurd (hdigit _ (List.mem_cons_of_mem _ List.mem_cons_self)) (by decide)

/-! ## Scalars -/

theorem bytesTag_isPrefixOf (cs : List Char) : bytesTag.isPrefixOf (bytesTag ++ cs) = true := by
  simp

theorem bytesTag_not_bigint (cs : List Char) : bytesTag.isPrefixOf (bigintTag ++ cs) = false := rfl

/-- A scalar comes back exactly when it is not a tagged string. -/
theorem jsonToScalar_scalarToJson (x : IntervalScalar ν) :
    jsonToScalar (scalarToJson x) = .ok x ↔ ¬x.IsTagged := by
  cases x with
  | number n => exact ⟨fun _ h => h, fun _ => rfl⟩
  | bigint i =>
    refine ⟨fun _ h => h, fun _ => ?_⟩
    simp only [scalarToJson, jsonToScalar, String.toList_ofList, bytesTag_not_bigint]
    have htagged : bigintTag.isPrefixOf (bigintTag ++ intText i) = true := by simp
    have hdrop : (bigintTag ++ intText i).drop 4 = intText i := rfl
    rw [htagged, hdrop, bigIntOfText_intText]
    rfl
  | bytes b =>
    refine ⟨fun _ h => h, fun _ => ?_⟩
    have hdrop : (bytesTag ++ btoa b).drop 5 = btoa b := rfl
    simp only [scalarToJson, jsonToScalar, String.toList_ofList, bytesTag_isPrefixOf, hdrop, atob_btoa,
      if_true]
  | string s =>
    unfold IntervalScalar.IsTagged IsTagged
    simp only [scalarToJson, jsonToScalar]
    by_cases hbytes : bytesTag.isPrefixOf s.toList = true
    · rw [if_pos hbytes]
      refine ⟨fun h => ?_, fun h => absurd (.inl hbytes) h⟩
      split at h <;> cases h
    · rw [if_neg hbytes]
      by_cases hbigint : bigintTag.isPrefixOf s.toList = true
      · rw [if_pos hbigint]
        refine ⟨fun h => ?_, fun h => absurd (.inr hbigint) h⟩
        split at h <;> cases h
      · rw [if_neg hbigint]
        exact ⟨fun _ h => h.elim hbytes hbigint, fun _ => rfl⟩

/-! ## Keys, ends and intervals -/

theorem mapM_jsonToScalar {key : IntervalKey ν} :
    (key.map scalarToJson).mapM jsonToScalar = .ok key ↔ ∀ x ∈ key, ¬x.IsTagged := by
  rw [mapM_ok_iff, List.forall₂_map_left_iff, List.forall₂_same]
  exact forall₂_congr fun x _ => jsonToScalar_scalarToJson x

theorem endpointFromWire_toWire {e : Endpoint (IntervalKey ν)} :
    endpointFromWire (endpointToWire e) = .ok e ↔ e.Untagged := by
  cases e with
  | negInf => exact ⟨fun _ _ hkey => (by cases hkey), fun _ => rfl⟩
  | posInf => exact ⟨fun _ _ hkey => (by cases hkey), fun _ => rfl⟩
  | value v i =>
    have huntagged : Endpoint.Untagged (.value v i) ↔ ∀ x ∈ v, ¬x.IsTagged :=
      List.forall_mem_singleton
    rw [huntagged, ← mapM_jsonToScalar]
    refine ⟨fun h => ?_, fun h => ?_⟩
    · obtain ⟨key, hkey, h⟩ := bind_ok h
      cases h
      exact hkey
    · show ((v.map scalarToJson).mapM jsonToScalar >>= _) = _
      rw [h]
      rfl

theorem intervalFromWire_range {lo hi : WireEndpoint ν} {iv : Interval (IntervalKey ν)} :
    intervalFromWire (.range lo hi) = .ok iv ↔
      endpointFromWire lo = .ok iv.lo ∧ endpointFromWire hi = .ok iv.hi := by
  refine ⟨fun h => ?_, fun ⟨hlo, hhi⟩ => ?_⟩
  · obtain ⟨lo', hlo, h⟩ := bind_ok h
    obtain ⟨hi', hhi, h⟩ := bind_ok h
    cases h
    exact ⟨hlo, hhi⟩
  · show (endpointFromWire lo >>= _) = _
    rw [hlo]
    show (endpointFromWire hi >>= _) = _
    rw [hhi]
    rfl

/-- The interval is everything, or both ends are written. -/
theorem intervalToWire_eq (iv : Interval (IntervalKey ν)) :
    iv = FULL ∧ intervalToWire iv = .full ∨
      intervalToWire iv = .range (endpointToWire iv.lo) (endpointToWire iv.hi) := by
  obtain ⟨lo, hi⟩ := iv
  cases lo with
  | negInf =>
    cases hi with
    | posInf => exact .inl ⟨rfl, rfl⟩
    | negInf => exact .inr rfl
    | value v i => exact .inr rfl
  | posInf => exact .inr rfl
  | value v i => exact .inr rfl

/-- An interval comes back exactly when no string of its keys starts with a tag. -/
theorem intervalFromWire_toWire {iv : Interval (IntervalKey ν)} :
    intervalFromWire (intervalToWire iv) = .ok iv ↔ iv.Untagged := by
  rcases intervalToWire_eq iv with ⟨rfl, hwire⟩ | hwire
  · rw [hwire]
    exact ⟨fun _ => ⟨fun _ hkey => (by cases hkey), fun _ hkey => (by cases hkey)⟩, fun _ => rfl⟩
  · rw [hwire, intervalFromWire_range, endpointFromWire_toWire, endpointFromWire_toWire]
    rfl

/-! ## The JSON of a wire value -/

def WireEndpoint.toJson : WireEndpoint ν → Json ν
  | .negInf => .obj [("kind", .str "neg_inf")]
  | .posInf => .obj [("kind", .str "pos_inf")]
  | .value v i => .obj [("kind", .str "value"), ("value", .arr v), ("inclusive", .bool i)]

def WireInterval.toJson : WireInterval ν → Json ν
  | .full => .obj [("kind", .str "full")]
  | .range lo hi => .obj [("kind", .str "range"), ("lo", lo.toJson), ("hi", hi.toJson)]

/-- The fields of an end, as `endpointFromWire` reads them. -/
def WireEndpoint.ofJson? : Json ν → Option (WireEndpoint ν)
  | .obj members =>
    match members.lookup "kind", members.lookup "value", members.lookup "inclusive" with
    | some (.str "neg_inf"), _, _ => some .negInf
    | some (.str "pos_inf"), _, _ => some .posInf
    | some (.str "value"), some (.arr v), some (.bool i) => some (.value v i)
    | _, _, _ => none
  | _ => none

/-- The fields of an interval, as `intervalFromWire` reads them. -/
def WireInterval.ofJson? : Json ν → Option (WireInterval ν)
  | .obj members =>
    match members.lookup "kind", members.lookup "lo", members.lookup "hi" with
    | some (.str "full"), _, _ => some .full
    | some (.str "range"), some lo, some hi => do
      let lo ← WireEndpoint.ofJson? lo
      let hi ← WireEndpoint.ofJson? hi
      some (.range lo hi)
    | _, _, _ => none
  | _ => none

/-- A wire value after `JSON.stringify` and `JSON.parse`. -/
def WireInterval.overJson [JsNumber ν] (w : WireInterval ν) : Option (WireInterval ν) := do
  let j ← Json.parse w.toJson.toText
  WireInterval.ofJson? j

theorem WireEndpoint.ofJson?_toJson (e : WireEndpoint ν) : WireEndpoint.ofJson? e.toJson = some e := by
  cases e <;> rfl

theorem WireInterval.ofJson?_toJson (w : WireInterval ν) : WireInterval.ofJson? w.toJson = some w := by
  cases w with
  | full => rfl
  | range lo hi =>
    show (WireEndpoint.ofJson? lo.toJson >>= _) = _
    rw [WireEndpoint.ofJson?_toJson]
    show (WireEndpoint.ofJson? hi.toJson >>= _) = _
    rw [WireEndpoint.ofJson?_toJson]
    rfl

/-! ## Numbers through JSON -/

/-- JSON text keeps the value of a finite number: only `-0` is written as another number, `0`. -/
class JsonNumber (ν : Type) extends JsNumber ν, FiniteNumber ν where
  exact_text : ∀ n, isFinite n → ∃ m, isFinite m ∧ isNegZero m = false ∧ text m = text n ∧
    value m = value n

instance : JsonNumber Int where
  value n := n
  exact_text n _ := ⟨n, rfl, rfl, rfl, rfl⟩

def IntervalScalar.Finite [JsNumber ν] : IntervalScalar ν → Prop
  | .number n => JsNumber.isFinite n
  | .string _ | .bigint _ | .bytes _ => True

def Endpoint.Finite [JsNumber ν] (e : Endpoint (IntervalKey ν)) : Prop :=
  ∀ key ∈ e.keys, ∀ x ∈ key, x.Finite

/-- The numbers of the keys of the ends are finite. -/
def Interval.Finite [JsNumber ν] (iv : Interval (IntervalKey ν)) : Prop := iv.lo.Finite ∧ iv.hi.Finite

section
variable [FiniteNumber ν]

/-- Of one type and one value. -/
def IntervalScalar.Same : IntervalScalar ν → IntervalScalar ν → Prop
  | .string a, .string b => a = b
  | .number a, .number b => FiniteNumber.value a = FiniteNumber.value b
  | .bigint a, .bigint b => a = b
  | .bytes a, .bytes b => a = b
  | _, _ => False

def Endpoint.Same : Endpoint (IntervalKey ν) → Endpoint (IntervalKey ν) → Prop
  | .negInf, .negInf => True
  | .posInf, .posInf => True
  | .value v i, .value w j => List.Forall₂ IntervalScalar.Same v w ∧ i = j
  | _, _ => False

/-- The same ends, their scalars of the same types and values. -/
def Interval.Same (a b : Interval (IntervalKey ν)) : Prop := a.lo.Same b.lo ∧ a.hi.Same b.hi

/-! ### Membership -/

theorem cmpScalar_same {a a' : IntervalScalar ν} (h : a.Same a') (b : IntervalScalar ν) :
    cmpScalar a b = cmpScalar a' b ∧ cmpScalar b a = cmpScalar b a' := by
  cases a <;> cases a' <;> try exact h.elim
  case number n m =>
    have hvalue : FiniteNumber.value n = FiniteNumber.value m := h
    cases b <;> simp [cmpScalar, hvalue, IntervalScalar.typeName]
  all_goals
    cases h
    exact ⟨rfl, rfl⟩

theorem cmpKey_same {v v' : IntervalKey ν} (h : List.Forall₂ IntervalScalar.Same v v')
    (w : IntervalKey ν) : cmpKey v w = cmpKey v' w ∧ cmpKey w v = cmpKey w v' := by
  induction h generalizing w with
  | nil => exact ⟨rfl, rfl⟩
  | cons hab _ ih =>
    cases w with
    | nil => exact ⟨rfl, rfl⟩
    | cons x xs =>
      obtain ⟨hl, hr⟩ := cmpScalar_same hab x
      obtain ⟨ihl, ihr⟩ := ih xs
      exact ⟨by rw [cmpKey, cmpKey, hl, ihl], by rw [cmpKey, cmpKey, hr, ihr]⟩

theorem cmpEndpoint_same {a a' : Endpoint (IntervalKey ν)} (h : a.Same a')
    (b : Endpoint (IntervalKey ν)) (side : Side) :
    cmpEndpoint cmpKey a b side = cmpEndpoint cmpKey a' b side ∧
      cmpEndpoint cmpKey b a side = cmpEndpoint cmpKey b a' side := by
  cases a <;> cases a' <;> try exact h.elim
  case value v i w j =>
    obtain ⟨hkey, rfl⟩ := h
    cases b with
    | negInf => exact ⟨rfl, rfl⟩
    | posInf => exact ⟨rfl, rfl⟩
    | value u k =>
      obtain ⟨hl, hr⟩ := cmpKey_same hkey u
      simp only [cmpEndpoint, hl, hr, and_self]
  all_goals exact ⟨rfl, rfl⟩

theorem contains_same {a a' : Interval (IntervalKey ν)} (h : a.Same a') (key : IntervalKey ν) :
    contains cmpKey a key = contains cmpKey a' key := by
  unfold contains
  simp only [(cmpEndpoint_same h.1 (.value key true) .lo).1,
    (cmpEndpoint_same h.2 (.value key true) .hi).2]

theorem containsAny_same {ivs ivs' : List (Interval (IntervalKey ν))}
    (h : List.Forall₂ Interval.Same ivs ivs') (key : IntervalKey ν) :
    containsAny cmpKey key ivs = containsAny cmpKey key ivs' := by
  induction h with
  | nil => rfl
  | cons hab _ ih => rw [containsAny, containsAny, contains_same hab, ih]

end

/-! ## Sets -/

def intervalSetToWire (set : IntervalSet (IntervalKey ν)) : List (WireInterval ν) :=
  set.intervals.map intervalToWire

def intervalSetFromWire (arr : List (WireInterval ν)) : Except Thrown (IntervalSet (IntervalKey ν)) := do
  let intervals ← arr.mapM intervalFromWire
  .ok (intervals.foldl IntervalSet.add ⟨[]⟩)

theorem foldl_add (set : IntervalSet (IntervalKey ν)) (ivs : List (Interval (IntervalKey ν))) :
    ivs.foldl IntervalSet.add set = ⟨set.intervals ++ ivs⟩ := by
  induction ivs generalizing set with
  | nil => rw [List.foldl_nil, List.append_nil]
  | cons iv ivs ih => rw [List.foldl_cons, ih, IntervalSet.add, List.append_assoc, List.singleton_append]

theorem intervalSetFromWire_ok {arr : List (WireInterval ν)} {ivs : List (Interval (IntervalKey ν))}
    (h : arr.mapM intervalFromWire = .ok ivs) : intervalSetFromWire arr = .ok ⟨ivs⟩ := by
  unfold intervalSetFromWire
  rw [h]
  show Except.ok (ivs.foldl IntervalSet.add ⟨[]⟩) = _
  rw [foldl_add, List.nil_append]

/-! ## Through JSON -/

section
variable [JsonNumber ν]

theorem kind_exact (kind : String) : (Json.obj [("kind", .str kind)] : Json ν).Exact :=
  ⟨List.pairwise_singleton _ _, str_exact kind, trivial⟩

theorem membersText_cons {k : String} {v v' : Json ν} {ms ms' : List (String × Json ν)}
    (hv : v.stringify = v'.stringify) (hms : Json.membersText ms = Json.membersText ms') :
    Json.membersText ((k, v) :: ms) = Json.membersText ((k, v') :: ms') := by
  rw [Json.membersText, Json.membersText, hv, hms]

theorem stringify_obj_cons {k : String} {v v' : Json ν} {ms ms' : List (String × Json ν)}
    (hv : v.stringify = v'.stringify) (hms : Json.membersText ms = Json.membersText ms') :
    (Json.obj ((k, v) :: ms)).stringify = (Json.obj ((k, v') :: ms')).stringify := by
  rw [Json.stringify, Json.stringify, hv, hms]

/-- A value written with the same text whose text says all of it. -/
theorem exact_scalar {x : IntervalScalar ν} (hx : x.Finite) (htag : ¬x.IsTagged) :
    ∃ j : Json ν, j.Exact ∧ j.stringify = (scalarToJson x).stringify ∧
      ∃ y, jsonToScalar j = .ok y ∧ y.Same x := by
  cases x with
  | number n =>
    obtain ⟨m, hfinite, hzero, htext, hvalue⟩ := JsonNumber.exact_text n hx
    refine ⟨.num m, ?_, ?_, .number m, rfl, hvalue⟩
    · show JsNumber.exact m = true
      rw [JsNumber.exact, hfinite, hzero]
      rfl
    · have hn : JsNumber.isFinite n = true := hx
      show Json.numText m = Json.numText n
      rw [Json.numText, Json.numText, if_pos hfinite, if_pos hn, htext]
  | string s =>
    exact ⟨_, str_exact _, rfl, .string s, (jsonToScalar_scalarToJson _).mpr htag, rfl⟩
  | bigint i =>
    exact ⟨_, str_exact _, rfl, .bigint i, (jsonToScalar_scalarToJson _).mpr htag, rfl⟩
  | bytes b =>
    exact ⟨_, str_exact _, rfl, .bytes b, (jsonToScalar_scalarToJson _).mpr htag, rfl⟩

theorem exact_elems {key : IntervalKey ν} (hkey : ∀ x ∈ key, x.Finite)
    (htag : ∀ x ∈ key, ¬x.IsTagged) :
    ∃ js : List (Json ν), Json.ElemsExact js ∧
      Json.elemsText js = Json.elemsText (key.map scalarToJson) ∧
      (Json.arr js).stringify = (Json.arr (key.map scalarToJson)).stringify ∧
      ∃ key', js.mapM jsonToScalar = .ok key' ∧ List.Forall₂ IntervalScalar.Same key' key := by
  induction key with
  | nil => exact ⟨[], trivial, rfl, rfl, [], rfl, .nil⟩
  | cons x key ih =>
    obtain ⟨hx, hkey⟩ := List.forall_mem_cons.mp hkey
    obtain ⟨hxtag, htag⟩ := List.forall_mem_cons.mp htag
    obtain ⟨j, hexact, htext, y, hy, hsame⟩ := exact_scalar hx hxtag
    obtain ⟨js, hexacts, htexts, -, key', hkey', hsames⟩ := ih hkey htag
    refine ⟨j :: js, ⟨hexact, hexacts⟩, ?_, ?_, y :: key', ?_, .cons hsame hsames⟩
    · rw [List.map_cons, Json.elemsText, Json.elemsText, htext, htexts]
    · rw [List.map_cons, Json.stringify, Json.stringify, htext, htexts]
    · exact mapM_ok_iff.mpr (.cons hy (mapM_ok_iff.mp hkey'))

/-- The fields of a written end stand in the order of its keys. -/
theorem exact_endpoint {e : Endpoint (IntervalKey ν)} (he : e.Finite) (htag : e.Untagged) :
    ∃ w : WireEndpoint ν, w.toJson.Exact ∧ w.toJson.stringify = (endpointToWire e).toJson.stringify ∧
      ∃ e', endpointFromWire w = .ok e' ∧ e'.Same e := by
  cases e with
  | negInf => exact ⟨.negInf, kind_exact _, rfl, .negInf, rfl, trivial⟩
  | posInf => exact ⟨.posInf, kind_exact _, rfl, .posInf, rfl, trivial⟩
  | value v i =>
    obtain ⟨js, hexact, -, htext, key', hkey', hsame⟩ :=
      exact_elems (he v (List.mem_singleton_self v)) (htag v (List.mem_singleton_self v))
    have hkeys : OwnKeys ["kind", "value", "inclusive"] := by decide
    refine ⟨.value js i, ⟨hkeys, str_exact _, hexact, trivial, trivial⟩,
      stringify_obj_cons rfl (membersText_cons htext rfl), .value key' i, ?_, hsame, rfl⟩
    show (js.mapM jsonToScalar >>= _) = _
    rw [hkey']
    rfl

theorem overJson_of_exact {w w' : WireInterval ν} (hexact : w'.toJson.Exact)
    (htext : w'.toJson.stringify = w.toJson.stringify) : w.overJson = some w' := by
  unfold WireInterval.overJson
  have hsame : w.toJson.toText = w'.toJson.toText := congrArg String.ofList htext.symm
  rw [hsame, Json.parse_toText hexact]
  exact WireInterval.ofJson?_toJson w'

/-- JSON between the two directions keeps the ends. -/
theorem intervalFromWire_overJson {iv : Interval (IntervalKey ν)} (hiv : iv.Finite)
    (htag : iv.Untagged) :
    ∃ w iv', (intervalToWire iv).overJson = some w ∧ intervalFromWire w = .ok iv' ∧ iv'.Same iv := by
  rcases intervalToWire_eq iv with ⟨rfl, hwire⟩ | hwire
  · rw [hwire]
    exact ⟨.full, FULL, overJson_of_exact (kind_exact _) rfl, rfl, trivial, trivial⟩
  · rw [hwire]
    obtain ⟨lo, hlo, hlotext, lo', hlo', hlosame⟩ := exact_endpoint hiv.1 htag.1
    obtain ⟨hi, hhi, hhitext, hi', hhi', hhisame⟩ := exact_endpoint hiv.2 htag.2
    have hkeys : OwnKeys ["kind", "lo", "hi"] := by decide
    exact ⟨.range lo hi, ⟨lo', hi'⟩,
      overJson_of_exact ⟨hkeys, str_exact _, hlo, hhi, trivial⟩
        (stringify_obj_cons rfl (membersText_cons hlotext (membersText_cons hhitext rfl))),
      intervalFromWire_range.mpr ⟨hlo', hhi'⟩, hlosame, hhisame⟩

/-! ## Round trips -/

/-- The interval comes back as it is, and after JSON with ends of the same types and values. -/
def RoundTrips (iv : Interval (IntervalKey ν)) : Prop :=
  intervalFromWire (intervalToWire iv) = .ok iv ∧
    ∃ w iv', (intervalToWire iv).overJson = some w ∧ intervalFromWire w = .ok iv' ∧ iv'.Same iv

/-- The decoded set contains the keys of the set, and throws for those it throws for; so does the
set decoded after JSON. -/
def SetRoundTrips (set : IntervalSet (IntervalKey ν)) : Prop :=
  (∃ set', intervalSetFromWire (intervalSetToWire set) = .ok set' ∧
    ∀ key, set'.contains cmpKey key = set.contains cmpKey key) ∧
  ∃ arr set', (intervalSetToWire set).mapM WireInterval.overJson = some arr ∧
    intervalSetFromWire arr = .ok set' ∧ ∀ key, set'.contains cmpKey key = set.contains cmpKey key

theorem roundTrips_iff {iv : Interval (IntervalKey ν)} (hiv : iv.Finite) :
    RoundTrips iv ↔ iv.Untagged :=
  ⟨fun h => intervalFromWire_toWire.mp h.1,
    fun h => ⟨intervalFromWire_toWire.mpr h, intervalFromWire_overJson hiv h⟩⟩

/-- The intervals of a set, each decoded after JSON. -/
theorem set_overJson {ivs : List (Interval (IntervalKey ν))} (h : ∀ iv ∈ ivs, RoundTrips iv) :
    ∃ arr ivs', (ivs.map intervalToWire).mapM WireInterval.overJson = some arr ∧
      arr.mapM intervalFromWire = .ok ivs' ∧ List.Forall₂ Interval.Same ivs' ivs := by
  induction ivs with
  | nil => exact ⟨[], [], rfl, rfl, .nil⟩
  | cons iv ivs ih =>
    obtain ⟨⟨-, w, iv', hw, hiv', hsame⟩, h⟩ := List.forall_mem_cons.mp h
    obtain ⟨arr, ivs', harr, hivs', hsames⟩ := ih h
    refine ⟨w :: arr, iv' :: ivs', ?_, mapM_ok_iff.mpr (.cons hiv' (mapM_ok_iff.mp hivs')),
      .cons hsame hsames⟩
    rw [List.map_cons, List.mapM_cons, hw, harr]
    rfl

theorem setRoundTrips {set : IntervalSet (IntervalKey ν)}
    (h : ∀ iv ∈ set.intervals, RoundTrips iv) : SetRoundTrips set := by
  have hdirect : (intervalSetToWire set).mapM intervalFromWire = .ok set.intervals := by
    rw [intervalSetToWire, mapM_ok_iff, List.forall₂_map_left_iff, List.forall₂_same]
    exact fun iv hiv => (h iv hiv).1
  obtain ⟨arr, ivs', harr, hivs', hsame⟩ := set_overJson h
  exact ⟨⟨set, intervalSetFromWire_ok hdirect, fun _ => rfl⟩,
    ⟨arr, ⟨ivs'⟩, harr, intervalSetFromWire_ok hivs', fun key => containsAny_same hsame key⟩⟩

/-- An interval with finite numbers comes back from the wire, also through JSON, exactly when no
string of its keys starts with a tag; a set of such intervals then comes back with the same keys. -/
theorem intervalWire_roundTrip (iv : Interval (IntervalKey ν)) (hiv : iv.Finite) :
    (RoundTrips iv ↔ iv.Untagged) ∧
      ∀ set : IntervalSet (IntervalKey ν), (∀ iv ∈ set.intervals, iv.Finite ∧ iv.Untagged) →
        SetRoundTrips set :=
  ⟨roundTrips_iff hiv, fun _ hset =>
    setRoundTrips fun iv hiv => (roundTrips_iff (hset iv hiv).1).mpr (hset iv hiv).2⟩

end

/-- From `"a"` on. -/
def fromA : Interval (IntervalKey Int) := ⟨.value [.string "a", .number 1] true, .posInf⟩

theorem intervalWire_roundTrip_fromA :
    fromA.Finite ∧ (RoundTrips fromA ↔ fromA.Untagged) ∧
      ∀ set : IntervalSet (IntervalKey Int), (∀ iv ∈ set.intervals, iv.Finite ∧ iv.Untagged) →
        SetRoundTrips set := by
  have hfinite : fromA.Finite := by
    refine ⟨fun key hkey x hx => ?_, fun key hkey => (by cases hkey)⟩
    obtain rfl := List.mem_singleton.mp hkey
    rcases List.mem_cons.mp hx with rfl | hx
    · trivial
    · obtain rfl := List.mem_singleton.mp hx
      rfl
  exact ⟨hfinite, intervalWire_roundTrip fromA hfinite⟩

/-- The string `"\x00bi:5"` comes back as the bigint `5`. -/
def taggedString : Interval (IntervalKey Int) :=
  ⟨.value [.string "\x00bi:5"] true, .posInf⟩

theorem tagged_string_comes_back_as_bigint :
    taggedString.Finite ∧
      intervalFromWire (intervalToWire taggedString) = .ok ⟨.value [.bigint 5] true, .posInf⟩ ∧
        ¬RoundTrips taggedString := by
  have hback : intervalFromWire (intervalToWire taggedString) =
      .ok ⟨.value [.bigint 5] true, .posInf⟩ := rfl
  refine ⟨⟨fun key hkey x hx => ?_, fun key hkey => (by cases hkey)⟩, hback, fun h => ?_⟩
  · obtain rfl := List.mem_singleton.mp hkey
    obtain rfl := List.mem_singleton.mp hx
    trivial
  · cases hback.symm.trans h.1

end Chardb.Intervals
