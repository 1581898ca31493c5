import PluginCatalog.Proofs.Inventory.Recommendations
import PluginCatalog.Proofs.Store.Histories

/-!
# Inserting plugins

The insertion of a plugin puts the rows of its builds into the store, or fails and leaves the store
alone (`Inventory.insert_step`). Insertions one after the other put the rows of all of them there,
or one of them fails (`insertEach_step`): what the table must admit are the rows of all insertions
together, in whatever order they come.

* `insertEach_any_order`: hence two orders of the same insertions both succeed or both fail, and if
  they succeed, all queries have the same answers afterwards.
-/

namespace PluginCatalog

variable {σ : Type}

/-! ## One insertion -/

/-- How an insertion into a table ends, and with which table. -/
inductive InsertStep (i : Inventory) (plugin : NewPlugin) (l : Table) :
    Except Failure Unit → Table → Prop where
  | faulty {fault : Fault} (h : Inventory.newRows i.imagePrefix plugin = .error fault) :
    InsertStep i plugin l (.error (.fault fault)) l
  | refused {rows : List (Row (Option Bool))} {cause : TableFault}
    (h : Inventory.newRows i.imagePrefix plugin = .ok rows) (hi : l.insert rows = .error cause) :
    InsertStep i plugin l (.error (.store (.notInserted cause))) l
  | inserted {rows : List (Row (Option Bool))} {l' : Table}
    (h : Inventory.newRows i.imagePrefix plugin = .ok rows) (hi : l.insert rows = .ok l') :
    InsertStep i plugin l (.ok ()) l'

/-- **An insertion** puts the rows of the plugin into the store, or leaves the store alone. -/
theorem Inventory.insert_step (i : Inventory) (plugin : NewPlugin) {w : World σ} {l : Table}
    (h : storeAt w.files i.storePath = .ok (.table l)) :
    ∃ answer w' l', (i.insert plugin).exec w = (answer, w') ∧
      storeAt w'.files i.storePath = .ok (.table l') ∧ InsertStep i plugin l answer l' := by
  unfold Inventory.insert
  rw [Run.exec_bind, exec_openStore, h]
  dsimp only [Except.mapError]
  cases hrows : newRows i.imagePrefix plugin with
  | error fault => exact ⟨_, _, l, rfl, h, .faulty hrows⟩
  | ok rows =>
    rcases insertInto_cases h rows with ⟨l', w', hi, hx, hl', -⟩ | ⟨cause, hi, hx⟩
    · dsimp only
      rw [Run.exec_bind, hx]
      exact ⟨_, _, l', rfl, hl', .inserted hrows hi⟩
    · dsimp only
      rw [Run.exec_bind, hx]
      exact ⟨_, _, l, rfl, h, .refused hrows hi⟩

/-! ## Insertions one after the other -/

/-- Inserts plugins, each into its inventory, up to the first insertion that fails. -/
def insertEach (calls : List (Inventory × NewPlugin)) : Run σ Unit :=
  calls.forM fun (i, plugin) => i.insert plugin

/-- The rows of insertions. -/
abbrev RowsOf (calls : List (Inventory × NewPlugin))
    (batches : List (List (Row (Option Bool)))) : Prop :=
  List.Forall₂ (fun c rows => Inventory.newRows c.1.imagePrefix c.2 = .ok rows) calls batches

/-- **Insertions one after the other** put the rows of all of them into the store, if the table
admits these, and else one of them fails. -/
theorem insertEach_step {p : Path} {w : World σ} {l : Table} {calls : List (Inventory × NewPlugin)}
    (hl : storeAt w.files p = .ok (.table l)) (hs : l.Standard)
    (hp : ∀ c ∈ calls, c.1.storePath = p) :
    (∃ batches w', RowsOf calls batches ∧ l.Admits batches.flatten ∧
      (insertEach calls).exec w = (.ok (), w') ∧
      storeAt w'.files p = .ok (.table (l.extended batches.flatten))) ∨
    (∃ e w', (insertEach calls).exec w = (.error e, w')) ∧
      ∀ batches, RowsOf calls batches → ¬l.Admits batches.flatten := by
  induction calls generalizing w l with
  | nil => exact .inl ⟨[], w, .nil, hs.admits_nil, rfl, by simpa using hl⟩
  | cons c calls ih =>
    obtain ⟨i, plugin⟩ := c
    obtain ⟨rfl, hp⟩ := List.forall_mem_cons.1 hp
    obtain ⟨answer, w₁, l₁, hx, hl₁, hstep⟩ := i.insert_step plugin hl
    have hcons : (insertEach ((i, plugin) :: calls)).exec w =
        (i.insert plugin >>= fun _ => insertEach calls).exec w := rfl
    rw [hcons, Run.exec_bind, hx]
    cases hstep with
    | faulty hrows =>
      refine .inr ⟨⟨_, _, rfl⟩, fun batches hb _ => ?_⟩
      cases hb with
      | cons hfirst _ => cases hrows.symm.trans hfirst
    | refused hrows hi =>
      refine .inr ⟨⟨_, _, rfl⟩, fun batches hb ha => ?_⟩
      cases hb with
      | cons hfirst _ =>
        obtain rfl := Except.ok.inj (hrows.symm.trans hfirst)
        rw [List.flatten_cons, Table.admits_append] at ha
        cases hi.symm.trans (hs.insert_eq_ok_iff.2 ⟨ha.1, rfl⟩)
    | @inserted rows _ hrows hi =>
      obtain ⟨ha, rfl⟩ := hs.insert_eq_ok_iff.1 hi
      dsimp only
      rcases ih hl₁ (hs.extended ha) hp with ⟨batches, w', hb, hrest, hx', hl'⟩ | ⟨hfail, hnone⟩
      · refine .inl ⟨rows :: batches, w', .cons hrows hb, ?_, hx', ?_⟩
        · exact Table.admits_append.2 ⟨ha, hrest⟩
        · rwa [List.flatten_cons, Table.extended_append]
      · refine .inr ⟨hfail, fun batches hb hall => ?_⟩
        cases hb with
        | cons hfirst hb =>
          obtain rfl := Except.ok.inj (hrows.symm.trans hfirst)
          exact hnone _ hb (Table.admits_append.1 hall).2

/-! ## The order of insertions -/

/-- Insertions have the rows of one list of batches only. -/
theorem RowsOf.unique {calls : List (Inventory × NewPlugin)}
    {batches batches' : List (List (Row (Option Bool)))} (h : RowsOf calls batches)
    (h' : RowsOf calls batches') : batches = batches' := by
  refine List.right_unique_forall₂' ?_ h h'
  intro c rows rows' hrows hrows'
  exact Except.ok.inj (hrows.symm.trans hrows')

/-- The rows of insertions in another order are the same in another order. -/
theorem RowsOf.perm {calls calls' : List (Inventory × NewPlugin)}
    {batches : List (List (Row (Option Bool)))} (h : RowsOf calls batches)
    (hp : calls.Perm calls') :
    ∃ batches', RowsOf calls' batches' ∧ batches.flatten.Perm batches'.flatten := by
  obtain ⟨batches', hb, hperm⟩ := List.perm_comp_forall₂ hp.symm h
  exact ⟨batches', hb, hperm.symm.flatten⟩

/-- Insertions that succeed also do so in another order, and the rows that are read afterwards are
the same. -/
theorem insertEach_perm {p : Path} {w v : World σ} {l : Table}
    {calls calls' : List (Inventory × NewPlugin)}
    (hl : storeAt w.files p = .ok (.table l)) (hs : l.Standard)
    (hp : ∀ c ∈ calls, c.1.storePath = p) (hcalls : calls.Perm calls')
    (h : (insertEach calls).exec w = (.ok (), v)) :
    ∃ v' rows, (insertEach calls').exec w = (.ok (), v') ∧
      rowsAt v.files p = .ok rows ∧ rowsAt v'.files p = .ok rows := by
  have hp' : ∀ c ∈ calls', c.1.storePath = p := fun c hc => hp c (hcalls.mem_iff.2 hc)
  rcases insertEach_step hl hs hp with ⟨batches, u, hb, ha, hx, hu⟩ | ⟨⟨e, u, hx⟩, -⟩
  · obtain rfl : u = v := congrArg Prod.snd (hx.symm.trans h)
    obtain ⟨batches', hb', hperm⟩ := hb.perm hcalls
    rcases insertEach_step hl hs hp' with ⟨batches'', v', hb'', -, hx', hv'⟩ | ⟨-, hnone⟩
    · obtain rfl := hb'.unique hb''
      refine ⟨v', _, hx', rowsAt_of_storeAt hu, ?_⟩
      rw [hs.read_extended_congr ha hperm]
      exact rowsAt_of_storeAt hv'
    · exact absurd ((Table.admits_congr hperm).1 ha) (hnone _ hb')
  · cases hx.symm.trans h

/-! ## Answers afterwards -/

/-- What is recommended is told from the entries for a target. -/
theorem recommendations_answer (i : Inventory) (context target : String) (w : World σ) :
    ((i.recommendations context target).exec w).1 =
      ((i.plugins (.visible target)).exec w).1.map (List.map fun e => (e.name, e.recommended)) := by
  unfold Inventory.recommendations
  rw [Run.exec_bind, Filter.visible]
  rcases (i.plugins { target := some target, includeHidden := false }).exec w with ⟨e | es, w'⟩
  · rfl
  · rfl

/-- From the same rows the same is answered. -/
theorem plugins_answer_congr {i : Inventory} {v v' : World σ} {rows : List ReadRow}
    (h : rowsAt v.files i.storePath = .ok rows) (h' : rowsAt v'.files i.storePath = .ok rows)
    (f : Filter) : ((i.plugins f).exec v).1 = ((i.plugins f).exec v').1 := by
  obtain ⟨journal, hx⟩ := exec_plugins i f h
  obtain ⟨journal', hx'⟩ := exec_plugins i f h'
  rw [hx, hx']

/-- **The order of insertions does not matter**: two orders of the same insertions both succeed or
both fail, and if they succeed, all queries have the same answers afterwards. -/
theorem insertEach_any_order {p : Path} {w : World σ} {l : Table}
    {calls calls' : List (Inventory × NewPlugin)}
    (hl : storeAt w.files p = .ok (.table l)) (hs : l.Standard)
    (hp : ∀ c ∈ calls, c.1.storePath = p) (hcalls : calls.Perm calls') :
    ((∃ v, (insertEach calls).exec w = (.ok (), v)) ↔
      ∃ v', (insertEach calls').exec w = (.ok (), v')) ∧
    ∀ v v', (insertEach calls).exec w = (.ok (), v) → (insertEach calls').exec w = (.ok (), v') →
      ∀ (i : Inventory) (u u' : World σ), i.storePath = p → u.files = v.files →
        u'.files = v'.files →
        (∀ f, ((i.plugins f).exec u).1 = ((i.plugins f).exec u').1) ∧
        ∀ context target, ((i.recommendations context target).exec u).1 =
          ((i.recommendations context target).exec u').1 := by
  have hp' : ∀ c ∈ calls', c.1.storePath = p := fun c hc => hp c (hcalls.mem_iff.2 hc)
  refine ⟨⟨fun ⟨v, hv⟩ => ?_, fun ⟨v', hv'⟩ => ?_⟩, fun v v' hv hv' i u u' hi hu hu' => ?_⟩
  · obtain ⟨v', -, hv', -⟩ := insertEach_perm hl hs hp hcalls hv
    exact ⟨v', hv'⟩
  · obtain ⟨v, -, hv, -⟩ := insertEach_perm hl hs hp' hcalls.symm hv'
    exact ⟨v, hv⟩
  · obtain ⟨v'', rows, hv'', hrows, hrows'⟩ := insertEach_perm hl hs hp hcalls hv
    obtain rfl : v'' = v' := congrArg Prod.snd (hv''.symm.trans hv')
    rw [← hi, ← hu] at hrows
    rw [← hi, ← hu'] at hrows'
    have hplugins : ∀ f, ((i.plugins f).exec u).1 = ((i.plugins f).exec u').1 :=
      plugins_answer_congr hrows hrows'
    refine ⟨hplugins, fun context target => ?_⟩
    rw [recommendations_answer, recommendations_answer, hplugins]

/-- Insertions in two spellings of one target, and one of a plugin without builds, into a store with
a row: the rows come in two orders, and both orders succeed. -/
theorem insertEach_any_order_spellings :
    let build (os version uri : String) : Option String × List NewArtifact :=
      (some version, [⟨some os, some "amd64", some "d", some "r.io/apps", some uri⟩])
    let plugin (name target recommended description : String)
        (builds : List (Option String × List NewArtifact)) : NewPlugin :=
      ⟨some name, some target, some description, some "p", some "v", some recommended, builds⟩
    let l : Table := ⟨.standard, [sampleRow "apps" "tmc" "v1.0.0"]⟩
    let i : Inventory := ⟨"/", "r.io/"⟩
    let calls : List (Inventory × NewPlugin) :=
      [(i, plugin "apps" "kubernetes" "" "new"
          [build "linux" "v1.2.0" "", build "linux" "v1.2" "u"]),
        (i, plugin "login" "" "" "empty" []),
        (i, plugin "apps" "k8s" "v1.1.0" "old" [build "linux" "v1.1.0" "a"])]
    let w : World Unit := ⟨⟨[], [(["plugin_inventory.db"], .file 0 (.store (.table l)))]⟩, [], ()⟩
    ∃ v v', (insertEach calls).exec w = (.ok (), v) ∧
      (insertEach calls.reverse).exec w = (.ok (), v') ∧
      ∀ (u u' : World Unit), u.files = v.files → u'.files = v'.files →
        (∀ f, ((i.plugins f).exec u).1 = ((i.plugins f).exec u').1) ∧
        ∀ context target, ((i.recommendations context target).exec u).1 =
          ((i.recommendations context target).exec u').1 := by
  intro build plugin l i calls w
  have hl : storeAt w.files i.storePath = .ok (.table l) := by rfl
  have hs : l.Standard := ⟨rfl, by decide, by decide⟩
  have hp : ∀ c ∈ calls, c.1.storePath = i.storePath := by simp [calls]
  have hok : ∃ v, (insertEach calls).exec w = (.ok (), v) := by
    rcases insertEach_step hl hs hp with ⟨-, v, -, -, hv, -⟩ | ⟨-, hnone⟩
    · exact ⟨v, hv⟩
    · refine absurd ?_ (hnone _ (.cons rfl (.cons rfl (.cons rfl .nil))))
      exact ⟨by decide +kernel, by decide +kernel⟩
  obtain ⟨hiff, hsame⟩ := insertEach_any_order hl hs hp (List.reverse_perm calls).symm
  obtain ⟨v, hv⟩ := hok
  obtain ⟨v', hv'⟩ := hiff.1 ⟨v, hv⟩
  exact ⟨v, v', hv, hv', fun u u' => hsame v v' hv hv' i u u' rfl⟩

end PluginCatalog
