import Chardb.Schema.PlaneMigrates

/-!
# Resources of an accepted diff

A resource with the same canonical JSON has the same triggers. Validation makes the locators of a
snapshot distinct, so a locator says which resource it is.
-/

namespace Chardb.Schema

open Chardb.Lib

section
variable {V : Type} [DecidableEq V] {ν : Type} [JsNumber ν] {sqlite : Sqlite V}
  {sha256Hex toLowerCase : String → String} {previous next : ChardbSchemaSnapshotInput}

/-! ## Resources -/

/-- The number that a validated resource carries. -/
def ChardbResourceDescriptor.Bounded : ChardbResourceDescriptor → Prop
  | .file r => 1 ≤ r.maxSize ∧ r.maxSize ≤ CDB_FILE_MAX_BYTES
  | .vector r => 1 ≤ r.dimensions ∧ r.dimensions ≤ CDB_VECTOR_MAX_DIMENSIONS

theorem resource_ownKeys (r : ChardbResourceDescriptor) :
    ∃ ms : List (String × Json ν), r.toJson = .obj ms ∧ OwnKeys (ms.map Prod.fst) := by
  cases r with
  | file r => exact ⟨_, rfl, by
      show OwnKeys ["kind", "version", "table", "column", "primaryKey", "organizationColumn",
        "maxSize", "contentTypes"]
      decide⟩
  | vector r => exact ⟨_, rfl, by
      show OwnKeys ["kind", "version", "table", "column", "primaryKey", "organizationColumn",
        "binding", "dimensions", "metric"]
      decide⟩

theorem resource_exact {r : ChardbResourceDescriptor} (h : r.Bounded) :
    (r.toJson : Json ν).Exact := by
  have hone : (1 : Int).natAbs < 2 ^ 53 := by decide
  cases r with
  | file r =>
    obtain ⟨ms, hms, hkeys⟩ := resource_ownKeys (ν := ν) (.file r)
    obtain rfl := Json.obj.inj hms
    have hsize : r.maxSize.natAbs < 2 ^ 53 := by
      have := h.1
      have : r.maxSize ≤ 25 * 1024 * 1024 := h.2
      omega
    refine ⟨hkeys, trivial, Json.int_exact hone, trivial, trivial, trivial, trivial,
      Json.int_exact hsize, ?_, trivial⟩
    cases r.contentTypes with
    | any => exact trivial
    | only types =>
      show Json.ElemsExact (types.map .str)
      rw [elemsExact_iff]
      intro x hx
      obtain ⟨s, -, rfl⟩ := List.mem_map.mp hx
      exact trivial
  | vector r =>
    obtain ⟨ms, hms, hkeys⟩ := resource_ownKeys (ν := ν) (.vector r)
    obtain rfl := Json.obj.inj hms
    have hsize : r.dimensions.natAbs < 2 ^ 53 := by
      have := h.1
      have : r.dimensions ≤ 1536 := h.2
      omega
    exact ⟨hkeys, trivial, Json.int_exact hone, trivial, trivial, trivial, trivial, trivial,
      Json.int_exact hsize, trivial, trivial⟩

theorem resource_fields {r r' : ChardbResourceDescriptor}
    (h : canonicalize (r.toJson : Json ν) = canonicalize r'.toJson) :
    r.isFile = r'.isFile ∧ r.table = r'.table ∧ r.column = r'.column ∧
      r.primaryKey = r'.primaryKey ∧ r.organizationColumn = r'.organizationColumn := by
  obtain ⟨ms, hms, hkeys⟩ := resource_ownKeys (ν := ν) r
  obtain ⟨ms', hms', hkeys'⟩ := resource_ownKeys (ν := ν) r'
  have hlength : (canonicalizeMembers ms).length = (canonicalizeMembers ms').length := by
    rw [hms, hms', canonicalize, canonicalize] at h
    rw [(canonicalize_obj_perm hkeys).length_eq, (canonicalize_obj_perm hkeys').length_eq,
      Json.obj.inj h]
  rw [hms, hms'] at h
  cases r with
  | file r =>
    obtain rfl := Json.obj.inj hms
    cases r' with
    | file r' =>
      obtain rfl := Json.obj.inj hms'
      have hmembers := canonicalize_obj_inj h hkeys rfl
      simp only [canonicalizeMembers, canonicalize, List.cons.injEq, Prod.mk.injEq, Json.str.injEq,
        true_and, and_true] at hmembers
      obtain ⟨htable, hcolumn, hprimary, horganization, -⟩ := hmembers
      exact ⟨rfl, htable, hcolumn, hprimary, horganization⟩
    | vector r' =>
      obtain rfl := Json.obj.inj hms'
      cases hlength
  | vector r =>
    obtain rfl := Json.obj.inj hms
    cases r' with
    | file r' =>
      obtain rfl := Json.obj.inj hms'
      cases hlength
    | vector r' =>
      obtain rfl := Json.obj.inj hms'
      have hmembers := canonicalize_obj_inj h hkeys rfl
      simp only [canonicalizeMembers, canonicalize, List.cons.injEq, Prod.mk.injEq, Json.str.injEq,
        true_and, and_true] at hmembers
      obtain ⟨htable, hcolumn, hprimary, horganization, -⟩ := hmembers
      exact ⟨rfl, htable, hcolumn, hprimary, horganization⟩

theorem resourcePrograms_eq {r r' : ChardbResourceDescriptor}
    (h : canonicalize (r.toJson : Json ν) = canonicalize r'.toJson) :
    resourcePrograms ν sha256Hex r = resourcePrograms ν sha256Hex r' := by
  obtain ⟨hfile, htable, hcolumn, hprimary, horganization⟩ := resource_fields h
  cases r with
  | file r =>
    cases r' with
    | vector r' => cases hfile
    | file r' =>
      replace htable : r.table = r'.table := htable
      replace hcolumn : r.column = r'.column := hcolumn
      replace hprimary : r.primaryKey = r'.primaryKey := hprimary
      replace horganization : r.organizationColumn = r'.organizationColumn := horganization
      have hhash : stableHashHex sha256Hex (r.toJson : Json ν) =
          stableHashHex sha256Hex (r'.toJson : Json ν) :=
        congrArg (fun j => sha256Hex (Json.toText j)) h
      simp only [resourcePrograms, renderFileAttachmentTriggerSet, htable, hcolumn, hprimary,
        horganization, hhash]
  | vector r =>
    cases r' with
    | file r' => cases hfile
    | vector r' =>
      replace htable : r.table = r'.table := htable
      replace hcolumn : r.column = r'.column := hcolumn
      replace hprimary : r.primaryKey = r'.primaryKey := hprimary
      replace horganization : r.organizationColumn = r'.organizationColumn := horganization
      have hid : cdbVectorResourceId ν sha256Hex r = cdbVectorResourceId ν sha256Hex r' := by
        unfold cdbVectorResourceId stableHashHex stableJson
        simp only [canonicalize, canonicalizeElems]
        exact congrArg (fun j => "vr1_" ++ sha256Hex (Json.arr [_, j]).toText) h
      simp only [resourcePrograms, renderVectorMutationTriggerSet, htable, hcolumn, hprimary,
        horganization, hid]

theorem mem_triggerPrograms {rs : List ChardbResourceDescriptor} {q : TriggerProgram} :
    q ∈ triggerPrograms ν sha256Hex rs ↔ ∃ r ∈ rs, q ∈ resourcePrograms ν sha256Hex r := by
  simp only [triggerPrograms, List.mem_append, List.mem_flatMap, List.mem_filter]
  constructor
  · rintro (⟨r, ⟨hr, -⟩, hq⟩ | ⟨r, ⟨hr, -⟩, hq⟩)
    · exact ⟨r, hr, hq⟩
    · exact ⟨r, hr, hq⟩
  · rintro ⟨r, hr, hq⟩
    cases hfile : r.isFile with
    | true => exact .inl ⟨r, ⟨hr, hfile⟩, hq⟩
    | false => exact .inr ⟨r, ⟨hr, by simp [hfile]⟩, hq⟩

/-! ### Locators are distinct -/

theorem boundedResourceName_ok {value field : String} {u : Unit}
    (h : boundedResourceName value field = .ok u) : '\x00' ∉ value.toList := by
  have hcontrol := (ensure_ok h).2.2
  intro hmem
  have : hasControl value = true := List.any_eq_true.mpr ⟨_, hmem, by decide⟩
  rw [this] at hcontrol
  cases hcontrol

theorem boundedLocator_ok {table column primaryKey organizationColumn : String} {u : Unit}
    (h : boundedLocator table column primaryKey organizationColumn = .ok u) :
    '\x00' ∉ table.toList := by
  obtain ⟨_, htable, -⟩ := bind_ok h
  exact boundedResourceName_ok htable

/-- Normalizing keeps the locator, which has no NUL in its table. -/
theorem normalizeChardbResourceDescriptor_ok {r r' : ChardbResourceDescriptor}
    (h : normalizeChardbResourceDescriptor toLowerCase r = .ok r') :
    r.Bounded ∧ r'.Bounded ∧ '\x00' ∉ r'.table.toList := by
  cases r with
  | file r =>
    obtain ⟨⟨maxSize, contentTypes⟩, hconfig, h⟩ := bind_ok h
    obtain ⟨_, hlocator, h⟩ := bind_ok h
    obtain rfl := Except.ok.inj h
    obtain ⟨_, hsize, hconfig⟩ := bind_ok hconfig
    have hmaxSize : maxSize = r.maxSize := by
      cases htypes : r.contentTypes with
      | any =>
        rw [htypes] at hconfig
        exact (Prod.mk.inj (Except.ok.inj hconfig)).1.symm
      | only types =>
        rw [htypes] at hconfig
        obtain ⟨_, -, hconfig⟩ := bind_ok hconfig
        obtain ⟨_, -, hconfig⟩ := bind_ok hconfig
        exact (Prod.mk.inj (Except.ok.inj hconfig)).1.symm
    subst hmaxSize
    have hbounds := ensure_ok hsize
    exact ⟨hbounds, hbounds, boundedLocator_ok hlocator⟩
  | vector r =>
    obtain ⟨_, hdimensions, h⟩ := bind_ok h
    obtain ⟨_, -, h⟩ := bind_ok h
    obtain ⟨_, -, h⟩ := bind_ok h
    obtain ⟨_, hlocator, h⟩ := bind_ok h
    obtain rfl := Except.ok.inj h
    have hbounds := ensure_ok hdimensions
    exact ⟨hbounds, hbounds, boundedLocator_ok hlocator⟩

theorem split_nul {xs ys xs' ys' : List Char} (hxs : '\x00' ∉ xs) (hxs' : '\x00' ∉ xs')
    (h : xs ++ '\x00' :: ys = xs' ++ '\x00' :: ys') : xs = xs' ∧ ys = ys' := by
  induction xs generalizing xs' with
  | nil =>
    cases xs' with
    | nil => exact ⟨rfl, (List.cons.inj h).2⟩
    | cons c xs' => exact absurd (List.cons.inj h).1 (List.ne_and_not_mem_of_not_mem_cons hxs').1
  | cons c xs ih =>
    cases xs' with
    | nil => exact absurd (List.cons.inj h).1.symm (List.ne_and_not_mem_of_not_mem_cons hxs).1
    | cons c' xs' =>
      obtain ⟨hc, h⟩ := List.cons.inj h
      obtain ⟨hxs, hys⟩ := ih (fun h => hxs (List.mem_cons_of_mem c h))
        (fun h => hxs' (List.mem_cons_of_mem c' h)) h
      exact ⟨by rw [hc, hxs], hys⟩

theorem kind_nul (r : ChardbResourceDescriptor) : '\x00' ∉ r.kind.toList := by
  have hfile : '\x00' ∉ "file".toList := by decide
  have hvector : '\x00' ∉ "vector".toList := by decide
  cases r
  · exact hfile
  · exact hvector

theorem resourceKey_inj {a b : ChardbResourceDescriptor} (ha : '\x00' ∉ a.table.toList)
    (hb : '\x00' ∉ b.table.toList) (h : resourceKey a = resourceKey b) :
    a.kind = b.kind ∧ a.table = b.table ∧ a.column = b.column := by
  have hlist := congrArg String.toList h
  simp only [resourceKey, String.toList_append] at hlist
  have hnul : ("\x00" : String).toList = ['\x00'] := rfl
  rw [hnul] at hlist
  simp only [List.append_assoc, List.singleton_append] at hlist
  obtain ⟨hkind, hrest⟩ := split_nul (kind_nul a) (kind_nul b) hlist
  obtain ⟨htable, hcolumn⟩ := split_nul ha hb hrest
  exact ⟨String.toList_inj.mp hkind, String.toList_inj.mp htable, String.toList_inj.mp hcolumn⟩

/-- Neighbours that differ in a sorted list: all differ. -/
theorem ensureDistinctLocators_ok {rs : List ChardbResourceDescriptor} {u : Unit}
    (h : ensureDistinctLocators rs = .ok u) (hnul : ∀ r ∈ rs, '\x00' ∉ r.table.toList)
    (hsorted : rs.Pairwise fun a b => utf16 (resourceKey a) ≤ utf16 (resourceKey b)) :
    (rs.map resourceKey).Nodup := by
  have hchain : rs.IsChain fun a b => utf16 (resourceKey a) < utf16 (resourceKey b) := by
    induction rs with
    | nil => exact .nil
    | cons a rs ih =>
      cases rs with
      | nil => exact .singleton a
      | cons b rs =>
        obtain ⟨_, hne, h⟩ := bind_ok h
        obtain ⟨hle, hsorted⟩ := List.pairwise_cons.mp hsorted
        refine .cons_cons ?_ (ih h (fun r hr => hnul r (List.mem_cons_of_mem a hr)) hsorted)
        refine lt_of_le_of_ne (hle b List.mem_cons_self) fun heq => ensure_ok hne ?_
        exact resourceKey_inj (hnul a List.mem_cons_self)
          (hnul b (List.mem_cons_of_mem a List.mem_cons_self)) (utf16_injective heq)
  have hpair := List.isChain_iff_pairwise.mp
    ((List.isChain_map (R := fun x y => utf16 x < utf16 y) resourceKey).mpr hchain)
  exact hpair.imp fun hlt heq => absurd (congrArg utf16 heq) (ne_of_lt hlt)

/-- What validation says of the resources of a snapshot. -/
structure ValidResources (resources : List ChardbResourceDescriptor) : Prop where
  bounded : ∀ r ∈ resources, r.Bounded
  distinct : (resources.map resourceKey).Nodup

theorem resourceKey_congr {r r' : ChardbResourceDescriptor}
    (h : canonicalize (r.toJson : Json ν) = canonicalize r'.toJson) :
    resourceKey r = resourceKey r' := by
  obtain ⟨hfile, htable, hcolumn, -⟩ := resource_fields h
  have hkind : r.kind = r'.kind := by
    cases r <;> cases r' <;> first | rfl | cases hfile
  rw [resourceKey, resourceKey, hkind, htable, hcolumn]

theorem resources_ok {resources normalized : List ChardbResourceDescriptor}
    (h : normalizeChardbResourceDescriptors toLowerCase resources = .ok normalized)
    (hcanonical :
      stableJson (resourcesJson ν resources) = stableJson (resourcesJson ν normalized)) :
    ValidResources resources := by
  obtain ⟨rs, hrs, h⟩ := bind_ok h
  obtain ⟨_, hdistinct, h⟩ := bind_ok h
  obtain rfl := Except.ok.inj h
  have hbounded : ∀ r ∈ resources, r.Bounded := fun r hr => by
    obtain ⟨r', -, hr'⟩ := exists_right_of_forall₂ (mapM_ok_iff.mp hrs) hr
    exact (normalizeChardbResourceDescriptor_ok hr').1
  have hnormal : ∀ r ∈ rs, r.Bounded ∧ '\x00' ∉ r.table.toList := fun r hr => by
    obtain ⟨r', -, hr'⟩ := mem_of_mapM_ok hrs hr
    exact (normalizeChardbResourceDescriptor_ok hr').2
  refine ⟨hbounded, ?_⟩
  have hmem : ∀ r, r ∈ rs.insertionSort (fun a b => utf16 (resourceKey a) ≤ utf16 (resourceKey b)) ↔
      r ∈ rs := fun r => List.mem_insertionSort _
  have hexact : ∀ xs : List ChardbResourceDescriptor, (∀ r ∈ xs, r.Bounded) →
      ∀ j ∈ xs.map fun r => (r.toJson : Json ν), j.Exact := fun xs hxs j hj => by
    obtain ⟨r, hr, rfl⟩ := List.mem_map.mp hj
    exact resource_exact (hxs r hr)
  have hmap := arr_canonical (hexact _ hbounded)
    (hexact _ fun r hr => (hnormal r ((hmem r).mp hr)).1) hcanonical
  rw [List.map_map, List.map_map] at hmap
  rw [map_congr_image (fun _ _ => resourceKey_congr) hmap]
  have : Std.Total fun a b : ChardbResourceDescriptor =>
      utf16 (resourceKey a) ≤ utf16 (resourceKey b) := ⟨fun a b => le_total _ _⟩
  have : IsTrans ChardbResourceDescriptor fun a b =>
      utf16 (resourceKey a) ≤ utf16 (resourceKey b) := ⟨fun _ _ _ hab hbc => hab.trans hbc⟩
  exact ensureDistinctLocators_ok hdistinct (fun r hr => (hnormal r ((hmem r).mp hr)).2)
    (List.pairwise_insertionSort _ rs)

end

end Chardb.Schema
