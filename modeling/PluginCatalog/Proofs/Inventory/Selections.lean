import PluginCatalog.Proofs.Inventory.Queries

/-!
# Entries of selected rows

A query aggregates rows that are selected among others, and where it asks for the recommended
version it selects twice.

* `entryKeys_filter`: the keys of selected rows are those that come up among them, in their order.
* `entries_filter_key`: if rows are selected by key, then so are their entries.
* `recommendedFor_entries`: what is recommended for a row is what the entry of its key recommends.
* `Filter.recommended_filter_key`: so it depends on the rows of that key alone.
* `query_ok` and `query_latest_ok`: what a query answers, told from the rows that it takes from the
  store (`Filter.taken`).
-/

namespace PluginCatalog

variable {σ : Type} {imagePrefix : String} {rows : List ReadRow}

/-! ## Keys and entries -/

/-- The plugin and the target of an entry. -/
def Entry.key (e : Entry) : EntryKey := ⟨e.name, e.target⟩

/-- **The keys of selected rows** are those that come up among them, in the same order. -/
theorem entryKeys_filter (p : ReadRow → Bool) (rows : List ReadRow) :
    entryKeys (rows.filter p) =
      (entryKeys rows).filter fun k => rows.any fun r => p r && entryKey r == k := by
  have hsub : ((entryKeys rows).filter fun k => rows.any fun r => p r && entryKey r == k).Sublist
      (entryKeys rows) := List.filter_sublist
  have hperm : (entryKeys (rows.filter p)).Perm
      ((entryKeys rows).filter fun k => rows.any fun r => p r && entryKey r == k) := by
    apply (List.perm_ext_iff_of_nodup (nodup_entryKeys _) (hsub.nodup (nodup_entryKeys rows))).2
    intro k
    simp only [mem_entryKeys, List.mem_map, List.mem_filter, List.any_eq_true, Bool.and_eq_true,
      beq_iff_eq]
    constructor
    · rintro ⟨r, ⟨hr, hp⟩, rfl⟩
      exact ⟨⟨r, hr, rfl⟩, r, hr, hp, rfl⟩
    · rintro ⟨-, r, hr, hp, rfl⟩
      exact ⟨r, ⟨hr, hp⟩, rfl⟩
  refine hperm.eq_of_pairwise ?_ (entryKeys_pairwise _) ((entryKeys_pairwise rows).sublist hsub)
  intro a b _ _ hab hba
  exact EntryKey.precedes_antisymm hab hba

/-- The entry of the rows of a key. -/
def entryOf (imagePrefix : String) (rows : List ReadRow) (key : EntryKey) : Entry :=
  Entry.ofRows imagePrefix key (rows.filter (entryKey · == key))

theorem entries_eq_map_entryOf (imagePrefix : String) (rows : List ReadRow) :
    entries imagePrefix rows = (entryKeys rows).map (entryOf imagePrefix rows) := rfl

/-- Entries are those of the keys of rows. -/
theorem mem_entries {e : Entry} :
    e ∈ entries imagePrefix rows ↔ ∃ r ∈ rows, entryOf imagePrefix rows (entryKey r) = e := by
  rw [entries_eq_map_entryOf, List.mem_map]
  constructor
  · rintro ⟨key, hkey, he⟩
    obtain ⟨r, hr, rfl⟩ := List.mem_map.1 (mem_entryKeys.1 hkey)
    exact ⟨r, hr, he⟩
  · rintro ⟨r, hr, he⟩
    exact ⟨entryKey r, mem_entryKeys.2 (List.mem_map_of_mem hr), he⟩

/-- Selecting rows by key leaves an entry as it is, or without rows. -/
theorem entryOf_filter_key {p : EntryKey → Bool} {key : EntryKey} (hp : p key)
    (imagePrefix : String) (rows : List ReadRow) :
    entryOf imagePrefix (rows.filter fun r => p (entryKey r)) key =
      entryOf imagePrefix rows key := by
  unfold entryOf
  rw [List.filter_filter]
  refine congrArg _ (List.filter_congr fun r _ => ?_)
  by_cases he : entryKey r = key
  · simp [he, hp]
  · simp [he]

/-- **Selecting rows by key selects entries by key.** -/
theorem entries_filter_key (imagePrefix : String) (p : EntryKey → Bool) (rows : List ReadRow) :
    entries imagePrefix (rows.filter fun r => p (entryKey r)) =
      (entries imagePrefix rows).filter fun e => p e.key := by
  have hkeys : (entryKeys rows).filter
      (fun k => rows.any fun r => p (entryKey r) && entryKey r == k) =
        (entryKeys rows).filter p := by
    refine List.filter_congr fun k hk => ?_
    obtain ⟨r, hr, rfl⟩ := List.mem_map.1 (mem_entryKeys.1 hk)
    rw [Bool.eq_iff_iff, List.any_eq_true]
    constructor
    · rintro ⟨s, -, hs⟩
      obtain ⟨hs, he⟩ := Bool.and_eq_true_iff.1 hs
      rwa [beq_iff_eq.1 he] at hs
    · intro hp
      exact ⟨r, hr, by simp [hp]⟩
  rw [entries_eq_map_entryOf, entries_eq_map_entryOf, entryKeys_filter, hkeys, List.filter_map]
  exact List.map_congr_left fun k hk => entryOf_filter_key (List.mem_filter.1 hk).2 imagePrefix rows

/-! ## Recommended versions -/

theorem find?_beq_of_mem {α : Type} [BEq α] [LawfulBEq α] {a : α} {l : List α} (h : a ∈ l) :
    l.find? (· == a) = some a := by
  cases hf : l.find? (· == a) with
  | none => exact absurd (beq_self_eq_true a) (List.find?_eq_none.1 hf a h)
  | some b =>
    have hb := List.find?_some hf
    rw [beq_iff_eq.1 hb]

/-- **What is recommended for a row** is what the entry of its key recommends. -/
theorem recommendedFor_entries {r : ReadRow} (h : r ∈ rows) :
    recommendedFor (entries imagePrefix rows) r =
      some (entryOf imagePrefix rows (entryKey r)).recommended := by
  have hkey : (fun k : EntryKey => k.name == r.name && k.target == (entryKey r).target) =
      (· == entryKey r) := by
    funext k
    rw [Bool.eq_iff_iff, Bool.and_eq_true, beq_iff_eq, beq_iff_eq, beq_iff_eq]
    constructor
    · rintro ⟨hname, htarget⟩
      obtain ⟨name, target⟩ := k
      exact congrArg₂ EntryKey.mk hname htarget
    · rintro rfl
      exact ⟨rfl, rfl⟩
  have hfind : (entryKeys rows).find? (· == entryKey r) = some (entryKey r) :=
    find?_beq_of_mem (mem_entryKeys.2 (List.mem_map_of_mem h))
  unfold recommendedFor entries
  rw [List.find?_map]
  change (((entryKeys rows).find? fun k : EntryKey =>
    k.name == r.name && k.target == (entryKey r).target).map _).map _ = _
  rw [hkey, hfind]
  rfl

namespace Filter

/-- The rows at the versions that are recommended among them, after the criteria of platform. -/
def recommended (f : Filter) (imagePrefix : String) (rows : List ReadRow) : List ReadRow :=
  rows.filter fun r => isRecommended (entries imagePrefix rows) r && f.admitsPlatform r

theorem mem_recommended {f : Filter} {r : ReadRow} : r ∈ f.recommended imagePrefix rows ↔
    r ∈ rows ∧ r.version = some (entryOf imagePrefix rows (entryKey r)).recommended ∧
      f.admitsPlatform r := by
  rw [recommended, List.mem_filter, Bool.and_eq_true, isRecommended, beq_iff_eq]
  refine and_congr_right fun hr => ?_
  rw [recommendedFor_entries hr]

/-- **What is recommended for a key depends on its rows alone**: rows can be selected by key before
or after. -/
theorem recommended_filter_key (f : Filter) (imagePrefix : String) (p : EntryKey → Bool)
    (rows : List ReadRow) :
    f.recommended imagePrefix (rows.filter fun r => p (entryKey r)) =
      (f.recommended imagePrefix rows).filter fun r => p (entryKey r) := by
  refine (List.filter_congr fun r hr => ?_).trans (List.filter_comm ..)
  have hmem := (List.mem_filter.1 hr).1
  rw [isRecommended, isRecommended, recommendedFor_entries hr, recommendedFor_entries hmem,
    entryOf_filter_key (List.mem_filter.1 hr).2]

end Filter

/-! ## Answers -/

namespace Filter

/-- The criteria by which a query takes rows from the store: where it asks for the recommended
versions, those of version and platform come later. -/
def basis (f : Filter) : Filter := if f.version = some latest then f.general else f

/-- The rows that a query takes from the store, without those left out for their version. -/
def taken (f : Filter) (rows : List ReadRow) : List ReadRow :=
  (rows.filter f.basis.admits).filter hasVersion

variable {f : Filter}

theorem basis_of_latest (hf : f.version = some latest) : f.basis = f.general := if_pos hf

theorem basis_of_ne_latest (hf : f.version ≠ some latest) : f.basis = f := if_neg hf

theorem general_ne_latest (f : Filter) : f.general.version ≠ some latest := by simp [general]

theorem mem_taken {r : ReadRow} : r ∈ f.taken rows ↔
    r ∈ rows ∧ f.basis.Wants r ∧ Version.isWritten r.version = .ok true := by
  rw [taken, List.mem_filter, List.mem_filter, admits_iff, hasVersion_iff, and_assoc]

theorem hasVersion_of_mem_taken {r : ReadRow} (h : r ∈ f.taken rows) : hasVersion r :=
  (List.mem_filter.1 h).2

/-- Rows can be selected before a query takes them or after. -/
theorem taken_filter (f : Filter) (p : ReadRow → Bool) (rows : List ReadRow) :
    f.taken (rows.filter p) = (f.taken rows).filter p := by
  unfold taken
  rw [List.filter_filter, List.filter_filter, List.filter_filter, List.filter_filter]
  refine List.filter_congr fun r _ => ?_
  ac_rfl

end Filter

variable {f : Filter} {es : List Entry}

/-- **A query for any or one version** that answers has the entries of the rows that it takes. -/
theorem query_ok (hf : f.version ≠ some Filter.latest) (h : (query imagePrefix f rows).2 = .ok es) :
    es = entries imagePrefix (f.taken rows) := by
  rw [query_of_ne_latest hf] at h
  rw [Filter.taken, Filter.basis_of_ne_latest hf]
  exact aggregate_ok h

/-- **A query for the recommended versions** that answers: the query without criteria of version
and platform has the entries of the rows that are taken, and the query those of the rows at the
versions recommended there. -/
theorem query_latest_ok (hf : f.version = some Filter.latest)
    (h : (query imagePrefix f rows).2 = .ok es) :
    (query imagePrefix f.general rows).2 = .ok (entries imagePrefix (f.taken rows)) ∧
      es = entries imagePrefix (f.recommended imagePrefix (f.taken rows)) := by
  have hgeneral : query imagePrefix f.general rows =
      aggregate imagePrefix (rows.filter f.general.admits) :=
    query_of_ne_latest f.general_ne_latest _ _
  rw [Filter.taken, Filter.basis_of_latest hf, hgeneral]
  rw [query, if_pos hf, queryLatest] at h
  rcases hagg : aggregate imagePrefix (rows.filter f.general.admits) with ⟨remarks, fault | bs⟩
  · simp [hagg] at h
  · obtain rfl := aggregate_ok (congrArg Prod.snd hagg)
    simp only [hagg] at h
    refine ⟨rfl, (aggregate_ok h).trans ?_⟩
    exact congrArg _ (List.filter_comm ..)

/-- A query for the recommended versions answers if no row is faulty, whatever its version and
platform are. -/
theorem query_latest_eq_ok (hf : f.version = some Filter.latest)
    (hfault : ∀ r ∈ rows.filter f.general.admits, faultOf imagePrefix r = none)
    (hn : ∀ r ∈ rows.filter f.general.admits, r.name.isSome) :
    ∃ es, (query imagePrefix f rows).2 = .ok es := by
  rw [query, if_pos hf, queryLatest]
  have hfirst := aggregate_eq_ok hfault hn
  rcases hagg : aggregate imagePrefix (rows.filter f.general.admits) with ⟨remarks, fault | bs⟩
  · rw [hagg] at hfirst
    cases hfirst
  · refine ⟨_, aggregate_eq_ok (fun r hr => ?_) fun r hr => ?_⟩
    · exact hfault r (List.mem_filter.1 hr).1
    · exact hn r (List.mem_filter.1 hr).1

/-- A query that answers has read a store. -/
theorem exists_query_of_exec_plugins {i : Inventory} {w w' : World σ}
    (h : (i.plugins f).exec w = (.ok es, w')) :
    ∃ rows, rowsAt w.files i.storePath = .ok rows ∧ (query i.imagePrefix f rows).2 = .ok es := by
  have hread := h
  unfold Inventory.plugins at hread
  obtain ⟨rows, w₁, hread, -⟩ := Run.exec_bind_ok hread
  rw [exec_readStore] at hread
  have hrows := eq_ok_of_mapError (Prod.mk.inj hread).1
  exact ⟨rows, hrows, query_of_exec_plugins hrows h⟩

end PluginCatalog
