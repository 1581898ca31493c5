import PluginCatalog.Proofs.Inventory.Selections
import PluginCatalog.Proofs.Version.Numbers

/-!
# Rows whose version cannot be read

A row whose version is no written version is left out of every answer, as if it were not there.

* `Table.versioned` is a table without such rows, `Table.read_versioned` says what is read of it.
* `query_eq_ok`: a query on complete rows answers unless one that it takes up has an overlong
  number, and the answer depends on the rows with a written version alone.
* `query_eq_overlong`: an overlong number makes the query fail, and no other row is answered for.
* `plugins_versioned` is both for a store, and `plugins_fail_overlong` a store on which every query
  without criteria fails for one row.
-/

namespace PluginCatalog

variable {σ φ : Type} {imagePrefix : String} {rows : List ReadRow} {f : Filter}

/-! ## Overlong numbers in rows -/

/-- The version of a row has a number with too many digits. -/
def Row.IsOverlong (r : Row φ) : Prop := ∃ v, r.version = some v ∧ ¬Version.IsShort v

theorem isWritten_of_isOverlong {r : Row φ} (h : r.IsOverlong) :
    Version.isWritten r.version = .error .overlong := by
  obtain ⟨v, hv, hlong⟩ := h
  rw [hv]
  exact Version.isWritten_of_not_short hlong

theorem isWritten_of_not_isOverlong {r : Row φ} (h : ¬r.IsOverlong) :
    ∃ b, Version.isWritten r.version = .ok b := by
  cases hv : r.version with
  | none => exact ⟨false, rfl⟩
  | some v =>
    refine Version.isWritten_of_short ?_
    by_contra hlong
    exact h ⟨v, hv, hlong⟩

/-- A row with a written version has no overlong number. -/
theorem not_isOverlong_of_hasVersion {r : ReadRow} (h : hasVersion r) : ¬r.IsOverlong := by
  intro hlong
  have hw := hasVersion_iff.1 h
  rw [isWritten_of_isOverlong hlong] at hw
  cases hw

/-- The fault of a row that has an address. -/
theorem faultOf_of_isOverlong {r : ReadRow} (h : r.IsOverlong) :
    faultOf imagePrefix r = some .overlongNumber := by
  rw [faultOf, isWritten_of_isOverlong h]

theorem faultOf_of_not_isOverlong {r : ReadRow} (hu : r.uri.isSome) (h : ¬r.IsOverlong) :
    faultOf imagePrefix r = none := by
  obtain ⟨b, hb⟩ := isWritten_of_not_isOverlong h
  exact faultOf_eq_none hb hu

/-- **Rows among which a number is overlong** are not aggregated. -/
theorem aggregate_of_isOverlong (hu : ∀ r ∈ rows, r.uri.isSome)
    (h : ∃ r ∈ rows, r.IsOverlong) : (aggregate imagePrefix rows).2 = .error .overlongNumber := by
  obtain ⟨r, hr, hlong⟩ := h
  rw [aggregate_snd]
  cases hf : rows.findSome? (faultOf imagePrefix) with
  | none =>
    have hnone := List.findSome?_eq_none_iff.1 hf r hr
    rw [faultOf_of_isOverlong hlong] at hnone
    cases hnone
  | some fault =>
    -- The first fault is of a row that has an address, too.
    obtain ⟨s, hs, hfault⟩ := List.exists_of_findSome?_eq_some hf
    by_cases hslong : s.IsOverlong
    · rw [faultOf_of_isOverlong hslong] at hfault
      rw [Option.some.inj hfault]
    · rw [faultOf_of_not_isOverlong (hu s hs) hslong] at hfault
      cases hfault

/-! ## Queries on complete rows -/

theorem query_of_latest (hf : f.version = some Filter.latest) (imagePrefix : String)
    (rows : List ReadRow) : query imagePrefix f rows = queryLatest imagePrefix f rows := if_pos hf

/-- **A query that takes up an overlong number** fails. -/
theorem query_eq_overlong (hc : ∀ r ∈ rows, r.Complete)
    (h : ∃ r ∈ rows, f.basis.Wants r ∧ r.IsOverlong) :
    (query imagePrefix f rows).2 = .error .overlongNumber := by
  have hfirst : (aggregate imagePrefix (rows.filter f.basis.admits)).2 =
      .error .overlongNumber := by
    obtain ⟨r, hr, hw, hlong⟩ := h
    refine aggregate_of_isOverlong (fun s hs => (hc s (List.mem_filter.1 hs).1).uri) ?_
    exact ⟨r, List.mem_filter.2 ⟨hr, Filter.admits_iff.2 hw⟩, hlong⟩
  by_cases hf : f.version = some Filter.latest
  · rw [Filter.basis_of_latest hf] at hfirst
    rw [query_of_latest hf, queryLatest]
    rcases hagg : aggregate imagePrefix (rows.filter f.general.admits) with ⟨remarks, fault | es⟩
    · rw [hagg] at hfirst
      exact hfirst
    · rw [hagg] at hfirst
      cases hfirst
  · rw [Filter.basis_of_ne_latest hf] at hfirst
    rw [query_of_ne_latest hf]
    exact hfirst

/-- The entries that a query answers with, told from the rows that it takes. -/
def Filter.answer (f : Filter) (imagePrefix : String) (taken : List ReadRow) : List Entry :=
  entries imagePrefix
    (if f.version = some Filter.latest then f.recommended imagePrefix taken else taken)

/-- **A query that takes up no overlong number** answers, from the rows with a written version. -/
theorem query_eq_ok (hc : ∀ r ∈ rows, r.Complete)
    (h : ∀ r ∈ rows, f.basis.Wants r → ¬r.IsOverlong) :
    (query imagePrefix f rows).2 = .ok (f.answer imagePrefix (f.taken rows)) := by
  have hfault : ∀ r ∈ rows.filter f.basis.admits, faultOf imagePrefix r = none := by
    intro r hr
    obtain ⟨hr, hw⟩ := List.mem_filter.1 hr
    exact faultOf_of_not_isOverlong (hc r hr).uri (h r hr (Filter.admits_iff.1 hw))
  have hname : ∀ r ∈ rows.filter f.basis.admits, r.name.isSome :=
    fun r hr => (hc r (List.mem_filter.1 hr).1).name
  unfold Filter.answer
  by_cases hf : f.version = some Filter.latest
  · rw [Filter.basis_of_latest hf] at hfault hname
    obtain ⟨es, hes⟩ := query_latest_eq_ok hf hfault hname
    rw [hes, (query_latest_ok hf hes).2, if_pos hf]
  · rw [Filter.basis_of_ne_latest hf] at hfault hname
    rw [query_of_ne_latest hf, aggregate_eq_ok hfault hname, if_neg hf, Filter.taken,
      Filter.basis_of_ne_latest hf]

/-- What a query takes has a written version. -/
theorem Filter.taken_filter_hasVersion (f : Filter) (rows : List ReadRow) :
    f.taken (rows.filter hasVersion) = f.taken rows := by
  rw [taken_filter, List.filter_eq_self]
  exact fun r hr => hasVersion_of_mem_taken hr

/-! ## Tables without those rows -/

namespace Table

/-- A table without the rows whose version is no written version. -/
def versioned (l : Table) : Table :=
  { l with rows := l.rows.filter fun r => hasVersion (readRow r) }

/-- **What is read of it** are the rows with a written version, in the same order. -/
theorem read_versioned (l : Table) : l.versioned.read = l.read.filter hasVersion :=
  l.read_filter hasVersion

end Table

/-! ## Queries -/

/-- **A query leaves out the rows whose version is no written version**: it answers as it does on
the store without them, for every filter, unless a row that it takes up has an overlong number. -/
theorem plugins_versioned {i : Inventory} {f : Filter} {w w' : World σ} {l : Table}
    (hl : storeAt w.files i.storePath = .ok (.table l)) (hs : l.Standard)
    (hl' : storeAt w'.files i.storePath = .ok (.table l.versioned)) :
    ∃ es, ((i.plugins f).exec w').1 = .ok es ∧
      ((∀ r ∈ l.read, f.basis.Wants r → ¬r.IsOverlong) → ((i.plugins f).exec w).1 = .ok es) ∧
      ((∃ r ∈ l.read, f.basis.Wants r ∧ r.IsOverlong) →
        ((i.plugins f).exec w).1 = .error (.fault .overlongNumber)) := by
  have hc : ∀ r ∈ l.read, r.Complete := fun r hr => hs.complete_of_mem_read hr
  obtain ⟨journal, hexec⟩ := exec_plugins i f (rowsAt_of_storeAt hl)
  obtain ⟨journal', hexec'⟩ := exec_plugins i f (rowsAt_of_storeAt hl')
  rw [hexec, hexec', l.read_versioned]
  refine ⟨f.answer i.imagePrefix (f.taken l.read), ?_, fun h => ?_, fun h => ?_⟩
  · rw [query_eq_ok, Filter.taken_filter_hasVersion]
    · rfl
    · exact fun r hr => hc r (List.mem_filter.1 hr).1
    · exact fun r hr _ => not_isOverlong_of_hasVersion (List.mem_filter.1 hr).2
  · rw [query_eq_ok hc h]
    rfl
  · rw [query_eq_overlong hc h]
    rfl

/-- A row with a written version, one without, and a hidden one with an overlong number. -/
theorem plugins_versioned_hidden :
    let row (name version : String) (hidden : Int) : StoredRow :=
      { sampleRow name "kubernetes" version with hidden := .integer hidden }
    let l : Table := ⟨.standard, [row "apps" "v1.0.0" 0, row "apps" "newest" 0,
      row "login" (String.ofList (List.replicate 4301 '1')) 1]⟩
    let i : Inventory := ⟨"/", "r.io"⟩
    let f : Filter := { version := some Filter.latest, includeHidden := false }
    let w (l : Table) : World Unit :=
      ⟨⟨[], [(["plugin_inventory.db"], .file 0 (.store (.table l)))]⟩, [], ()⟩
    ∃ es, ((i.plugins f).exec (w l.versioned)).1 = .ok es ∧
      ((i.plugins f).exec (w l)).1 = .ok es := by
  intro row l i f w
  have hl : storeAt (w l).files i.storePath = .ok (.table l) := by rfl
  have hs : l.Standard := ⟨rfl, by decide, by decide⟩
  have hl' : storeAt (w l.versioned).files i.storePath = .ok (.table l.versioned) := by rfl
  obtain ⟨es, hes, hok, -⟩ := plugins_versioned hl hs hl'
  refine ⟨es, hes, hok fun r hr hw => ?_⟩
  obtain ⟨s, hs, rfl⟩ := Table.mem_read.1 hr
  rintro ⟨v, hv, hlong⟩
  simp only [l, List.mem_cons, List.not_mem_nil, or_false] at hs
  rcases hs with rfl | rfl | rfl
  · obtain rfl : "v1.0.0" = v := Option.some.inj hv
    exact hlong (by decide)
  · obtain rfl : "newest" = v := Option.some.inj hv
    exact hlong (by decide)
  · -- The overlong number is in the hidden row.
    cases hw.hidden rfl

/-- Next to a row with an overlong number, a row with a written version is not answered for. -/
theorem plugins_fail_overlong :
    let l : Table := ⟨.standard, [sampleRow "apps" "kubernetes" "v1.0.0",
      sampleRow "login" "kubernetes" (String.ofList (List.replicate 4301 '1'))]⟩
    let i : Inventory := ⟨"/", "r.io"⟩
    let w (l : Table) : World Unit :=
      ⟨⟨[], [(["plugin_inventory.db"], .file 0 (.store (.table l)))]⟩, [], ()⟩
    l.Standard ∧ (∃ es, ((i.plugins {}).exec (w l.versioned)).1 = .ok es) ∧
      ((i.plugins {}).exec (w l)).1 = .error (.fault .overlongNumber) := by
  intro l i w
  have hs : l.Standard := ⟨rfl, by decide, by decide⟩
  have hc : ∀ r ∈ l.read, r.Complete := fun r hr => hs.complete_of_mem_read hr
  have hl : storeAt (w l).files i.storePath = .ok (.table l) := by rfl
  have hl' : storeAt (w l.versioned).files i.storePath = .ok (.table l.versioned) := by rfl
  refine ⟨hs, ?_, ?_⟩
  · obtain ⟨journal, hexec⟩ := exec_plugins i {} (rowsAt_of_storeAt hl')
    rw [hexec, l.read_versioned, query_eq_ok]
    · exact ⟨_, rfl⟩
    · exact fun r hr => hc r (List.mem_filter.1 hr).1
    · exact fun r hr _ => not_isOverlong_of_hasVersion (List.mem_filter.1 hr).2
  · obtain ⟨journal, hexec⟩ := exec_plugins i {} (rowsAt_of_storeAt hl)
    rw [hexec, query_eq_overlong hc]
    · rfl
    · refine ⟨_, Table.mem_read.2 ⟨_, List.mem_cons_of_mem _ List.mem_cons_self, rfl⟩, ?_⟩
      exact ⟨Filter.admits_iff.1 (Filter.admits_all _), _, rfl,
        Version.not_isShort_ones (Nat.le_refl _)⟩

end PluginCatalog
