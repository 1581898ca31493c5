import PluginCatalog.Proofs.Inventory.Selections

/-!
# Queries for a target

A filter finds a target by its spellings: the known ones, and the one it is given. Entries gather
the rows of a target however it is spelt, in letters of any case and with blanks around.

* `SpeltFor f t rows`: the rows of the target of `t` are in a spelling by which it is found.
* `speltFor_iff`: this is to say that the query for the target takes all rows of its entries.
* `plugins_of_target`: then the query for the target has the entries of the target of the query for
  all targets; and only then, unless it asks for the recommended versions.
* `plugins_miss_spelling`: a row in capital letters is missed.
-/

namespace PluginCatalog

variable {σ : Type} {imagePrefix : String} {rows : List ReadRow}

namespace Filter

/-- The filter with a target to ask for. -/
def targeting (f : Filter) (t : String) : Filter := { f with target := some t }

variable {f : Filter} {t : String}

theorem admits_targeting (hf : isSet f.target = false) (r : ReadRow) :
    (f.targeting t).admits r = (f.admits r && meetsTarget (some t) r.target) := by
  have hany : meetsTarget f.target r.target = true := by simp [meetsTarget, hf]
  change (meets f.name r.name && meetsTarget (some t) r.target && meets f.publisher r.publisher
    && meets f.vendor r.vendor && meets f.version r.version && f.admitsPlatform r
    && (f.includeHidden || !r.hidden)) = _
  rw [admits, hany]
  cases meetsTarget (some t) r.target <;> simp

theorem basis_targeting (f : Filter) (t : String) :
    (f.targeting t).basis = f.basis.targeting t := by
  by_cases h : f.version = some latest
  · rw [basis_of_latest h]
    exact basis_of_latest h
  · rw [basis_of_ne_latest h]
    exact basis_of_ne_latest h

theorem isSet_target_basis (f : Filter) : isSet f.basis.target = isSet f.target := by
  unfold basis
  split <;> rfl

/-- A query for a target takes those of the rows that are in a spelling of the target. -/
theorem taken_targeting (hf : isSet f.target = false) (t : String) (rows : List ReadRow) :
    (f.targeting t).taken rows = (f.taken rows).filter fun r => meetsTarget (some t) r.target := by
  have hadmits : ∀ r, (f.basis.targeting t).admits r =
      (f.basis.admits r && meetsTarget (some t) r.target) :=
    fun r => admits_targeting (f.isSet_target_basis.trans hf) r
  unfold taken
  rw [basis_targeting, List.filter_filter, List.filter_filter, List.filter_filter]
  refine List.filter_congr fun r _ => ?_
  rw [hadmits]
  ac_rfl

/-- Rows in a spelling of a target are rows of the target. -/
theorem normalize_of_meetsTarget (ht : t ≠ "") {cell : Option String}
    (h : meetsTarget (some t) cell) : Target.normalize? cell = Target.normalize t := by
  obtain ⟨s, hs, rfl⟩ := meetsTarget_iff.1 h t rfl ht
  exact Target.normalize_of_mem_spellings hs

end Filter

/-- The rows of the target of `t` that a query takes are in a spelling by which it finds the
target. -/
def SpeltFor (f : Filter) (t : String) (rows : List ReadRow) : Prop :=
  ∀ r ∈ rows, f.basis.Wants r → Version.isWritten r.version = .ok true →
    Target.normalize? r.target = Target.normalize t → ∃ s ∈ Target.spellings t, r.target = some s

variable {f : Filter} {t : String}

/-- A query for a target takes, of the rows of the target, those in a spelling of it. -/
theorem taken_targeting_of_target (hf : Filter.isSet f.target = false) (ht : t ≠ "") :
    (f.targeting t).taken rows =
      ((f.taken rows).filter fun r => (entryKey r).target == Target.normalize t).filter
        fun r => Filter.meetsTarget (some t) r.target := by
  rw [Filter.taken_targeting hf, List.filter_filter]
  refine List.filter_congr fun r _ => ?_
  rw [Bool.eq_iff_iff, Bool.and_eq_true]
  refine ⟨fun h => ⟨h, ?_⟩, And.left⟩
  exact beq_iff_eq.2 (Filter.normalize_of_meetsTarget ht h)

/-- **The rows of a target are spelt for it** if a query for the target takes them all. -/
theorem speltFor_iff (hf : Filter.isSet f.target = false) (ht : t ≠ "") : SpeltFor f t rows ↔
    (f.targeting t).taken rows =
      (f.taken rows).filter fun r => (entryKey r).target == Target.normalize t := by
  rw [taken_targeting_of_target hf ht, List.filter_eq_self]
  simp only [List.mem_filter, Filter.mem_taken, beq_iff_eq, Filter.meetsTarget_iff]
  constructor
  · rintro h r ⟨⟨hr, hwants, hversion⟩, htarget⟩ s hs -
    obtain rfl := Option.some.inj hs
    exact h r hr hwants hversion htarget
  · intro h r hr hwants hversion htarget
    exact h r ⟨⟨hr, hwants, hversion⟩, htarget⟩ t rfl ht

/-! ## Entries of a target -/

/-- Rows that have the same entries as rows among which they are selected are all of them. -/
theorem eq_of_sublist_of_entries {rows' : List ReadRow} (hsub : rows'.Sublist rows)
    (hv : ∀ r ∈ rows, hasVersion r) (h : entries imagePrefix rows' = entries imagePrefix rows) :
    rows' = rows := by
  have hlisted : (listed (entries imagePrefix rows)).length = rows.length :=
    (listed_entries hv).length_eq.trans (List.length_map _)
  have hlisted' : (listed (entries imagePrefix rows')).length = rows'.length :=
    (listed_entries fun r hr => hv r (hsub.subset hr)).length_eq.trans (List.length_map _)
  exact hsub.eq_of_length (by rw [← hlisted, ← hlisted', h])

/-- **What a query for a target answers**: where the rows of the target are spelt for it, the
entries of the target that the query for all targets has, as they are; and only there, unless the
recommended versions are asked for. -/
theorem plugins_of_target {i : Inventory} {w w₁ w₂ : World σ} {es es' : List Entry}
    (hr : rowsAt w.files i.storePath = .ok rows) (hf : Filter.isSet f.target = false) (ht : t ≠ "")
    (h : (i.plugins f).exec w = (.ok es, w₁))
    (h' : (i.plugins (f.targeting t)).exec w = (.ok es', w₂)) :
    (SpeltFor f t rows → es' = es.filter (·.target == Target.normalize t)) ∧
      (f.version ≠ some Filter.latest → es' = es.filter (·.target == Target.normalize t) →
        SpeltFor f t rows) := by
  have hquery := query_of_exec_plugins hr h
  have hquery' := query_of_exec_plugins hr h'
  have hselect : ∀ rows : List ReadRow,
      entries i.imagePrefix (rows.filter fun r => (entryKey r).target == Target.normalize t) =
        (entries i.imagePrefix rows).filter (·.target == Target.normalize t) :=
    entries_filter_key i.imagePrefix fun k => k.target == Target.normalize t
  by_cases hlatest : f.version = some Filter.latest
  · refine ⟨fun hspelt => ?_, fun hne => absurd hlatest hne⟩
    obtain ⟨-, rfl⟩ := query_latest_ok hlatest hquery
    obtain ⟨-, rfl⟩ := query_latest_ok (f := f.targeting t) hlatest hquery'
    rw [(speltFor_iff hf ht).1 hspelt, ← hselect]
    exact congrArg _ (f.recommended_filter_key i.imagePrefix
      (fun k => k.target == Target.normalize t) (f.taken rows))
  · obtain rfl := query_ok hlatest hquery
    obtain rfl := query_ok (f := f.targeting t) hlatest hquery'
    rw [speltFor_iff hf ht, ← hselect]
    refine ⟨congrArg _, fun _ heq => ?_⟩
    apply eq_of_sublist_of_entries _ _ heq
    · rw [taken_targeting_of_target hf ht]
      exact List.filter_sublist
    · intro r hr
      exact Filter.hasVersion_of_mem_taken (List.mem_filter.1 hr).1

/-- Three spellings of a target, one of them the text asked for, and a fourth that stands with no
version. -/
theorem plugins_of_target_spellings :
    let l : Table := ⟨.standard, [sampleRow "apps" "K8S" "v1.10.0",
      sampleRow "apps" "kubernetes" "v1.9.0", sampleRow "apps" "tmc" "v2.0.0",
      sampleRow "cluster" "k8s" "v1.0.0", sampleRow "cluster" "Kubernetes" "newest",
      sampleRow "cluster" "" "v1.0.0"]⟩
    let i : Inventory := ⟨"/", "r.io"⟩
    let w : World Unit := ⟨⟨[], [(["plugin_inventory.db"], .file 0 (.store (.table l)))]⟩, [], ()⟩
    let f : Filter := {}
    ∃ es es' w₁ w₂, (i.plugins f).exec w = (.ok es, w₁) ∧
      (i.plugins (f.targeting "K8S")).exec w = (.ok es', w₂) ∧
      (SpeltFor f "K8S" l.read → es' = es.filter (·.target == Target.normalize "K8S")) ∧
      (f.version ≠ some Filter.latest → es' = es.filter (·.target == Target.normalize "K8S") →
        SpeltFor f "K8S" l.read) ∧
      SpeltFor f "K8S" l.read := by
  intro l i w f
  have hr : rowsAt w.files i.storePath = .ok l.read := by rfl
  have hfault : ∀ r ∈ l.read, faultOf i.imagePrefix r = none := by decide +kernel
  have hn : ∀ r ∈ l.read, r.name.isSome := by decide +kernel
  have hspelt : ∀ r ∈ l.read, Version.isWritten r.version = .ok true →
      Target.normalize? r.target = Target.normalize "K8S" →
        ∃ s ∈ Target.spellings "K8S", r.target = some s := by decide +kernel
  obtain ⟨w₁, h⟩ := exec_plugins_ok hr (f := f) nofun
    (fun r hr => hfault r (List.mem_filter.1 hr).1) fun r hr => hn r (List.mem_filter.1 hr).1
  obtain ⟨w₂, h'⟩ := exec_plugins_ok hr (f := f.targeting "K8S") nofun
    (fun r hr => hfault r (List.mem_filter.1 hr).1) fun r hr => hn r (List.mem_filter.1 hr).1
  have hall := plugins_of_target hr rfl (by decide) h h'
  exact ⟨_, _, w₁, w₂, h, h', hall.1, hall.2, fun r hr _ => hspelt r hr⟩

/-- A plugin whose target is stored in capital letters has an entry of the target, and a query for
the target misses it. -/
theorem plugins_miss_spelling :
    let l : Table := ⟨.standard, [sampleRow "apps" "K8S" "v1.0.0"]⟩
    let i : Inventory := ⟨"/", "r.io"⟩
    let w : World Unit := ⟨⟨[], [(["plugin_inventory.db"], .file 0 (.store (.table l)))]⟩, [], ()⟩
    let f : Filter := {}
    storeAt w.files i.storePath = .ok (.table l) ∧ l.Standard ∧
      ∃ es w₁ w₂, (i.plugins f).exec w = (.ok es, w₁) ∧
        (i.plugins (f.targeting "kubernetes")).exec w = (.ok [], w₂) ∧
        es.filter (·.target == Target.normalize "kubernetes") ≠ [] := by
  intro l i w f
  have hl : storeAt w.files i.storePath = .ok (.table l) := by rfl
  have hr : rowsAt w.files i.storePath = .ok l.read := rowsAt_of_storeAt hl
  obtain ⟨w₁, h⟩ := exec_plugins_ok hr (f := f) nofun (by decide +kernel) (by decide +kernel)
  obtain ⟨w₂, h'⟩ := exec_plugins_ok hr (f := f.targeting "kubernetes") nofun (by decide +kernel)
    (by decide +kernel)
  have hempty : entries i.imagePrefix ((l.read.filter
      (f.targeting "kubernetes").admits).filter hasVersion) = [] := by decide +kernel
  rw [hempty] at h'
  exact ⟨hl, ⟨rfl, by decide, by decide⟩, _, w₁, w₂, h, h', by decide +kernel⟩

end PluginCatalog
