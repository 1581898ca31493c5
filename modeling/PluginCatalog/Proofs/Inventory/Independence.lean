import PluginCatalog.Proofs.Inventory.Unwritten

/-!
# Plugins do not influence each other

What a query answers for a plugin and target is told from its rows alone: whatever rows of others a
store holds, the entry is the same.

* `answer_filter_key`: the entries of a key are the answer from the rows of that key.
* `plugins_independent` is the same for two stores with the same rows of a plugin and target.
-/

namespace PluginCatalog

variable {σ τ : Type} {imagePrefix : String} {rows : List ReadRow} {f : Filter}

/-- A query that answers has the entries that are told from the rows that it takes. -/
theorem query_answer {es : List Entry} (h : (query imagePrefix f rows).2 = .ok es) :
    es = f.answer imagePrefix (f.taken rows) := by
  unfold Filter.answer
  by_cases hf : f.version = some Filter.latest
  · rw [if_pos hf]
    exact (query_latest_ok hf h).2
  · rw [if_neg hf]
    exact query_ok hf h

/-- **The entries of a key** are the answer from the rows of that key. -/
theorem answer_filter_key (f : Filter) (imagePrefix : String) (p : EntryKey → Bool)
    (rows : List ReadRow) :
    (f.answer imagePrefix (f.taken rows)).filter (fun e => p e.key) =
      f.answer imagePrefix (f.taken (rows.filter fun r => p (entryKey r))) := by
  unfold Filter.answer
  rw [← entries_filter_key, Filter.taken_filter]
  split
  · rw [Filter.recommended_filter_key]
  · rfl

/-- There are no two entries of one key. -/
theorem answer_unique {d e : Entry} (hd : d ∈ f.answer imagePrefix rows)
    (he : e ∈ f.answer imagePrefix rows) (h : d.key = e.key) : d = e := by
  obtain ⟨r, -, rfl⟩ := mem_entries.1 hd
  obtain ⟨s, -, rfl⟩ := mem_entries.1 he
  have hkey : entryKey r = entryKey s := h
  rw [hkey]

/-- **What is answered for a plugin and target** depends on its rows alone: if two stores have the
same rows of it, a query answers with an entry for it on both or on none, and the two entries are
equal. -/
theorem plugins_independent {i j : Inventory} (hp : i.imagePrefix = j.imagePrefix) {f : Filter}
    {v v' : World σ} {w w' : World τ} {l m : Table} {ds es : List Entry}
    (hl : storeAt v.files i.storePath = .ok (.table l)) (hls : l.Standard)
    (hm : storeAt w.files j.storePath = .ok (.table m)) (hms : m.Standard) {key : EntryKey}
    (hsame : ∀ r : ReadRow, r.name = key.name → Target.normalize? r.target = key.target →
      (r ∈ l.read ↔ r ∈ m.read))
    (hd : (i.plugins f).exec v = (.ok ds, v')) (he : (j.plugins f).exec w = (.ok es, w')) :
    ((∃ d ∈ ds, d.key = key) ↔ ∃ e ∈ es, e.key = key) ∧
      ∀ d ∈ ds, ∀ e ∈ es, d.key = key → e.key = key → d = e := by
  obtain rfl := query_answer (query_of_exec_plugins (rowsAt_of_storeAt hl) hd)
  obtain rfl := query_answer (query_of_exec_plugins (rowsAt_of_storeAt hm) he)
  have hrows : l.read.filter (entryKey · == key) = m.read.filter (entryKey · == key) := by
    refine eq_of_ascending (hls.read_ascending.filter _) (hms.read_ascending.filter _) fun r => ?_
    rw [List.mem_filter, List.mem_filter]
    refine and_congr_left fun hkey => ?_
    obtain rfl := beq_iff_eq.1 hkey
    exact hsame r rfl rfl
  have hentries : (f.answer i.imagePrefix (f.taken l.read)).filter (·.key == key) =
      (f.answer j.imagePrefix (f.taken m.read)).filter (·.key == key) := by
    rw [answer_filter_key f _ (· == key), answer_filter_key f _ (· == key), hrows, hp]
  have hmem : ∀ e : Entry, e.key = key → (e ∈ f.answer i.imagePrefix (f.taken l.read) ↔
      e ∈ f.answer j.imagePrefix (f.taken m.read)) := by
    intro e hkey
    have hiff : e ∈ (f.answer i.imagePrefix (f.taken l.read)).filter (·.key == key) ↔
        e ∈ (f.answer j.imagePrefix (f.taken m.read)).filter (·.key == key) := by rw [hentries]
    simpa [hkey] using hiff
  refine ⟨exists_congr fun e => and_congr_left (hmem e), fun d hd e he hdk hek => ?_⟩
  exact answer_unique ((hmem d hdk).1 hd) he (hdk.trans hek.symm)

/-- Two stores with the same rows of a plugin in two spellings of its target. In one of them there
are rows of it for another target, in the other one of another plugin that recommends much more. -/
theorem plugins_independent_spellings :
    let row (name target version recommended : String) (hidden : Int) : StoredRow :=
      { sampleRow name target version with
        recommended := some recommended, hidden := .integer hidden }
    let l : Table := ⟨.standard, [row "apps" "k8s" "v1.1.0" "" 0, row "apps" "tmc" "v3.0.0" "" 0,
      row "apps" "kubernetes" "v1.0.0" "v1.0.0" 0, row "apps" "k8s" "v2.0.0" "v2.0.0" 1]⟩
    let m : Table := ⟨.standard, [row "login" "k8s" "v9.0.0" "v9.0.0" 0,
      row "apps" "k8s" "v2.0.0" "v2.0.0" 1, row "apps" "kubernetes" "v1.0.0" "v1.0.0" 0,
      row "apps" "k8s" "v1.1.0" "" 0]⟩
    let i : Inventory := ⟨"/", "r.io"⟩
    let f : Filter := { version := some Filter.latest, os := some "linux", includeHidden := false }
    let w (l : Table) : World Unit :=
      ⟨⟨[], [(["plugin_inventory.db"], .file 0 (.store (.table l)))]⟩, [], ()⟩
    let key : EntryKey := ⟨some "apps", "kubernetes"⟩
    ∃ ds es v' w', (i.plugins f).exec (w l) = (.ok ds, v') ∧
      (i.plugins f).exec (w m) = (.ok es, w') ∧
      ((∃ d ∈ ds, d.key = key) ↔ ∃ e ∈ es, e.key = key) ∧
        ∀ d ∈ ds, ∀ e ∈ es, d.key = key → e.key = key → d = e := by
  intro row l m i f w key
  have hl : storeAt (w l).files i.storePath = .ok (.table l) := by rfl
  have hm : storeAt (w m).files i.storePath = .ok (.table m) := by rfl
  have hls : l.Standard := ⟨rfl, by decide, by decide⟩
  have hms : m.Standard := ⟨rfl, by decide, by decide⟩
  have hrows : l.read.filter (entryKey · == key) = m.read.filter (entryKey · == key) := by
    decide +kernel
  have hsame : ∀ r : ReadRow, r.name = key.name → Target.normalize? r.target = key.target →
      (r ∈ l.read ↔ r ∈ m.read) := by
    intro r hname htarget
    have hkey : (entryKey r == key) = true := by simp [entryKey, hname, htarget]
    have hiff : r ∈ l.read.filter (entryKey · == key) ↔ r ∈ m.read.filter (entryKey · == key) := by
      rw [hrows]
    simpa [hkey] using hiff
  obtain ⟨ds, hds⟩ : ∃ ds, (query i.imagePrefix f l.read).2 = .ok ds :=
    query_latest_eq_ok rfl (by decide +kernel) (by decide +kernel)
  obtain ⟨es, hes⟩ : ∃ es, (query i.imagePrefix f m.read).2 = .ok es :=
    query_latest_eq_ok rfl (by decide +kernel) (by decide +kernel)
  obtain ⟨journal, hd⟩ := exec_plugins i f (rowsAt_of_storeAt hl)
  obtain ⟨journal', he⟩ := exec_plugins i f (rowsAt_of_storeAt hm)
  rw [hds] at hd
  rw [hes] at he
  exact ⟨ds, es, _, _, hd, he, plugins_independent rfl hl hls hm hms hsame hd he⟩

end PluginCatalog
