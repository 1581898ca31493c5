import PluginCatalog.Proofs.Upload.Courses
import PluginCatalog.Proofs.Upload.OwnFiles
import PluginCatalog.Proofs.Upload.Publishing

/-!
# The store that a run pushes

* `World.exchanges` are the files that were fetched and published up to now, with the rows that were
  in them.
* `Absorbed own published rows`: what a merge makes of the rows of a store. `PushedRows` are the
  rows that are published of it, for each way in which the fetch can go, and `Uploader.Pushed` says
  when they are published at all.
* `Uploader.storeAt_fetched`: while the published store is fetched, that of the bundle stays as it
  is, if the archive put nothing into the place of the downloads.
* `run_pushes`: what any run publishes of its store. `run_pushes_overwritten` is a run of which the
  store is replaced by the one that was fetched.
-/

namespace PluginCatalog

open FileTree

variable {σ : Type}

/-! ## Exchanges -/

/-- Whether an entry of the journal is about files that are fetched or published. -/
def Event.isExchange : Event → Bool
  | .pull _ _ | .push _ _ => true
  | .activity _ | .sleep _ | .copy _ _ => false

/-- The files that were fetched and published up to now, in their order. -/
def World.exchanges (w : World σ) : List Event := w.journal.filter Event.isExchange

@[simp] theorem World.exchanges_noting (w : World σ) (level : Level) (text : String) :
    (w.noting level text).exchanges = w.exchanges := by
  simp [World.exchanges, World.noting, Event.isExchange]

theorem World.exchanges_after (w : World σ) (e : Event) (r : Reply σ) :
    (w.after e r).exchanges = w.exchanges ++ [e].filter Event.isExchange := by
  have hactivities : (r.activities.map Event.activity).filter Event.isExchange = [] := by
    simp [List.filter_eq_nil_iff, Event.isExchange]
  have hcons : (e :: r.activities.map Event.activity).filter Event.isExchange =
      [e].filter Event.isExchange := by
    rw [← List.singleton_append, List.filter_append, hactivities, List.append_nil]
  rw [World.exchanges, World.after, List.filter_append, hcons]
  rfl

namespace Uploader

variable {s : ImageService σ} {u : Uploader}

/-- Before the store nothing is fetched and no file is published. -/
theorem keeps_prepare_exchanges (u : Uploader) (before : List Event) :
    Run.Keeps (fun w => w.exchanges = before) (u.prepare s) := by
  have hn : ∀ (w : World σ) level text, w.exchanges = before →
      (w.noting level text).exchanges = before := by
    intro w level text h
    rw [World.exchanges_noting, h]
  refine keeps_prepare_of_calls hn (fun w seconds h => ?_) (fun _ _ h => h) fun image address => ?_
  · simpa [World.exchanges, Event.isExchange] using h
  · intro w h
    rw [ImageService.copyImage, ImageService.exec_calling]
    exact (w.exchanges_after _ _).trans (by simp [h, Event.isExchange])

/-- Merging what is published fetches it, unless there is no place for it. -/
theorem mergePublished_exchanges (u : Uploader) (s : ImageService σ) (address : String)
    (store : Path) (w : World σ) :
    let r := (u.mergePublished s address store).exec w
    (r.2.exchanges = w.exchanges ∧ ∃ e, r.1 = .error e) ∨
      r.2.exchanges = w.exchanges ++ [.pull address u.downloads] := by
  have hn : ∀ (w' : World σ) level text,
      w'.exchanges = w.exchanges ++ [.pull address u.downloads] →
      (w'.noting level text).exchanges = w.exchanges ++ [.pull address u.downloads] := by
    intro w' level text h
    rw [World.exchanges_noting, h]
  have hfetch : (u.afterFetch s address w).exchanges =
      w.exchanges ++ [.pull address u.downloads] := World.exchanges_after _ _ _
  have hways := u.mergesPublished_exec s address store w
  dsimp only
  generalize (u.mergePublished s address store).exec w = r at hways
  cases hways with
  | unmade => exact .inl ⟨rfl, _, rfl⟩
  | failed => exact .inr hfetch
  | absent => exact .inr (hn _ _ _ hfetch)
  | merged text _ _ hm =>
    exact .inr ((keeps_mergeStore hn (fun _ _ h _ => h) (fun _ _ h => h) _).of_exec hm
      (hn _ _ _ hfetch))

/-- The store is published as it is then. -/
theorem pushStore_exchanges (u : Uploader) (s : ImageService σ) (m : Manifest) (address : String)
    (store : Path) (w : World σ) : ((u.pushStore s m address store).exec w).2.exchanges =
      w.exchanges ++ [.push address [(store, snapshotAt w.files store)]] := by
  refine after_pushStore (I := fun w' => w'.exchanges =
    w.exchanges ++ [.push address [(store, snapshotAt w.files store)]]) (fun w' _ _ h => ?_) ?_
  · rw [World.exchanges_noting, h]
  · exact (World.exchanges_after _ _ _).trans (by rw [World.exchanges_noting]; rfl)

end Uploader

/-! ## The rows of a store after a merge -/

/-- The rows of a store after published ones were merged into its own: those of builds that are not
published, and the last row of each build that is. -/
structure Absorbed (own published rows : List ReadRow) : Prop where
  keys : (rows.map Row.key).Nodup
  ascending : rows.Pairwise fun a b => a.key.precedes b.key
  mem : ∀ r, r ∈ rows ↔ (r ∈ own ∧ rowsOf r.build published = []) ∨
    (rowsOf r.build published).getLast? = some r

theorem Table.Standard.absorbed_merged {l : Table} (hl : l.Standard) {published : List ReadRow}
    (hc : ∀ r ∈ latest published, r.Complete) :
    Absorbed l.read published (l.merged published).read where
  keys := (hl.merged hc).nodup_key_read
  ascending := (l.merged published).read_pairwise
  mem r := by
    have hnone : rowsOf r.build published = [] ↔ ∀ s ∈ published, s.build ≠ r.build := by
      simp [rowsOf, List.filter_eq_nil_iff]
    rw [Table.mem_read_merged hl hc, mem_latest_iff, hnone]

/-- The rows at a path are read in the order of their keys. -/
theorem pairwise_of_rowsAt {t : FileTree} {p : Path} {rows : List ReadRow}
    (h : rowsAt t p = .ok rows) : rows.Pairwise fun a b => a.key.precedes b.key := by
  unfold rowsAt at h
  obtain ⟨store, -, h⟩ := bind_eq_ok_iff.1 h
  cases store with
  | foreign => cases h
  | incomplete => cases h
  | table l =>
    obtain rfl := Except.ok.inj h
    exact l.read_pairwise

/-- The rows that are published of a store with rows of its own, when `x` is the end of the fetch
and `downloaded` the place at which what was fetched is looked for. -/
inductive PushedRows (x : Reply σ) (downloaded : Path) (own : List ReadRow) :
    List ReadRow → Prop where
  | absent {message : String} (h : x.outcome = .error (.image (.absent message))) :
    PushedRows x downloaded own own
  | notFetched (h : x.outcome = .ok ()) (he : x.files.pathExists downloaded = false) :
    PushedRows x downloaded own own
  | merged {published rows : List ReadRow} (h : x.outcome = .ok ())
    (hr : rowsAt x.files downloaded = .ok published)
    (ho : published.Pairwise fun a b => a.key.precedes b.key)
    (hm : Absorbed own published rows) : PushedRows x downloaded own rows

namespace Uploader

variable {s : ImageService σ} {u : Uploader}

/-- What is published of the store at a path, when `x` is the end of the fetch. -/
structure Pushed (u : Uploader) (x : Reply σ) (store : Path) (rows : Snapshot) : Prop where
  /-- It is published only if there was nothing to fetch, or a merge of what was fetched succeeded.
  -/
  passed : (∃ message, x.outcome = .error (.image (.absent message))) ∨ x.outcome = .ok () ∧
    ∃ answer, mergeAnswer x.files store (u.downloads / store.name) = .ok answer
  rows : ∀ l, storeAt x.files store = .ok (.table l) → l.Standard →
    ∃ pushed, rows = .ok pushed ∧ PushedRows x (u.downloads / store.name) l.read pushed

/-- **A store that was merged** is published with these rows. -/
theorem pushed_of_merged {address : String} {store : Path} {w w' : World σ}
    (h : (u.mergePublished s address store).exec w = (.ok (), w')) :
    u.Pushed (u.fetched s address w) store (snapshotAt w'.files store) := by
  have hsnapshot : ∀ {t : FileTree} {l : Table}, storeAt t store = .ok (.table l) →
      snapshotAt t store = .ok l.read := by
    intro t l hl
    rw [snapshotAt, rowsAt_of_storeAt hl]
  rcases mergePublished_inv h with ⟨⟨message, habsent⟩, hfiles⟩ | ⟨hfetched, answer, w₁, hw₁, hexec⟩
  · refine ⟨.inl ⟨message, habsent⟩, fun l hl hs => ⟨l.read, ?_, .absent habsent⟩⟩
    rw [hfiles, hsnapshot hl]
  have hanswer := exec_mergeStore_answer w₁ store (u.downloads / store.name)
  have hstep := mergeStore_step store (u.downloads / store.name) w₁
  rw [hexec, hw₁] at hanswer hstep
  refine ⟨.inr ⟨hfetched, answer, hanswer.symm⟩, fun l hl hs => ?_⟩
  rcases hstep.table_inv hl with ⟨hnone, hfiles⟩ | ⟨published, hr, hc, hmerged⟩
  · refine ⟨l.read, ?_, .notFetched hfetched hnone⟩
    rw [hfiles, hsnapshot hl]
  · exact ⟨_, hsnapshot hmerged,
      .merged hfetched hr (pairwise_of_rowsAt hr) (hs.absorbed_merged hc)⟩

/-! ## The store of the bundle -/

/-- A service that writes only what it fetches leaves the unpacked files before the store. -/
theorem prepare_files (hm : s.Modest) {m : Manifest} {metadata : MetadataImage} {w w' : World σ}
    (h : (u.prepare s).exec w = (.ok (m, metadata), w')) :
    w'.files = (extractFrom w.files u.archive u.scratch).1 := by
  obtain ⟨w₁, hunpack, -, -, hcopy⟩ := prepare_inv h
  obtain ⟨-, -, hfiles⟩ := unpack_inv hunpack
  refine (keeps_copyImages (I := fun w' => w'.files = _) (fun _ _ _ h => h) (fun _ _ h => h)
    fun image _ address w h => ?_).of_exec hcopy hfiles
  rw [ImageService.copyImage, ImageService.exec_calling]
  exact (hm.copied _ address w.files w.services).trans h

/-- A path in a bundle is seen from the root. -/
theorem origin_bundle (hp : u.scratch.isAbsolute) (here : Location) (source : String) :
    origin here (u.bundle / source) = [] := by
  have hbundle : origin here u.bundle = [] := by
    rw [bundle_parts]
    exact if_pos hp
  change origin here (u.bundle.append _) = []
  rw [origin_append, hbundle]
  exact ite_self _

/-- **The store of the bundle is not touched while the published one is fetched**, if the archive
put nothing into the place of the downloads. -/
theorem storeAt_fetched {t : FileTree} (hc : Clear t u.scratch) (hm : s.Modest)
    (hfree : (u.extracted t).node? u.downloads.parts = none) {source : String}
    (hfile : (u.extracted t).isFile (u.bundle / source)) (address : String) {w : World σ}
    (hw : w.files = u.extracted t) :
    storeAt (u.fetched s address w).files (u.bundle / source) =
      storeAt (u.extracted t) (u.bundle / source) := by
  have hparts := u.parts_downloads
  have habs := isAbsolute_downloads hc.absolute
  have hne : u.downloads.parts ≠ [] := by simp [hparts]
  have hpaved := paved_extracted hc
  have hmade := hpaved.ensureDirectory_free habs hparts isName_downloadName hfree
  -- The directory is made anew, and only what is in it is written.
  have hdir : ((u.extracted t).set u.downloads.parts .directory).follow u.downloads =
      .ok (.taken u.downloads.parts .directory) := by
    refine Paved.follow habs ?_
    rw [hparts]
    have hmono := hpaved.mono (.set (hparts ▸ hne) (by simp [← hparts, hfree]) .directory)
    refine hmono.snoc isName_downloadName ?_
    rw [node?_set _ (hparts ▸ hne), if_pos rfl]
  have hsame : ∀ l, ¬u.downloads.parts <+: l →
      (u.fetched s address w).files.node? l = (u.extracted t).node? l := by
    intro l hl
    have hlne : l ≠ u.downloads.parts := by
      rintro rfl
      exact hl List.prefix_rfl
    unfold fetched
    rw [hw, hmade]
    rw [hm.pulled address u.downloads _ _ _ hdir l fun hb => hl hb.1, node?_set _ hne, if_neg hlne]
  obtain ⟨c, hcontent⟩ := Option.isSome_iff_exists.1 hfile
  obtain ⟨loc, serial, hspot⟩ := follow_of_file? hcontent
  have hspot' : (u.fetched s address w).files.follow (u.bundle / source) =
      .ok (.taken loc (.file serial c)) := by
    have hr := reaches_of_follow hspot
    rw [origin_bundle hc.absolute] at hr
    unfold FileTree.follow
    rw [origin_bundle hc.absolute]
    exact (hr.of_aside hne hfree hsame fun hp => hne (List.prefix_nil.1 hp)).walk
  refine storeAt_congr ?_
  unfold find?
  rw [hspot, hspot']

end Uploader

/-! ## Runs -/

namespace Uploader

variable {s : ImageService σ} {u : Uploader}

/-- **The step in which a run publishes its store**: if it publishes anything, then the store that
was merged. -/
theorem publishMetadata_pushes {m : Manifest} {metadata : MetadataImage} {w : World σ}
    (hw : w.exchanges = []) {address : String} {files : List (Path × Snapshot)}
    (h : .push address files ∈ ((u.publishMetadata s m metadata).exec w).2.exchanges) :
    u.address metadata.address = .ok address ∧
      ((u.publishMetadata s m metadata).exec w).2.exchanges =
        [.pull address u.downloads, .push address files] ∧
      ∃ rows, files = [(u.bundle / metadata.source, rows)] ∧
        u.Pushed (u.fetched s address w) (u.bundle / metadata.source) rows := by
  have hways := u.publishesStore_exec s m metadata w
  generalize (u.publishMetadata s m metadata).exec w = r at h hways
  have hmerge (address text : String) := u.mergePublished_exchanges s address
    (u.bundle / metadata.source) (w.noting .info text)
  simp only [World.exchanges_noting, hw, List.nil_append] at hmerge
  cases hways with
  | unplaced =>
    dsimp only at h
    rw [hw] at h
    cases h
  | @unmerged published e w' text _ hfail =>
    have hfetch := hmerge published text
    rw [hfail] at hfetch
    rcases hfetch with ⟨hnone, -⟩ | hpull
    · rw [hnone] at h
      cases h
    · rw [hpull] at h
      simp at h
  | @merged published w' text ha hok =>
    have hfetch := hmerge published text
    rw [hok] at hfetch
    have hpull : w'.exchanges = [.pull published u.downloads] := by
      rcases hfetch with ⟨-, e, he⟩ | hpull
      · cases he
      · exact hpull
    rw [pushStore_exchanges, hpull, List.singleton_append] at h ⊢
    obtain ⟨rfl, rfl⟩ : address = published ∧ files =
        [(u.bundle / metadata.source, snapshotAt w'.files (u.bundle / metadata.source))] := by
      simpa using h
    have hpushed := pushed_of_merged hok
    exact ⟨ha, rfl, _, rfl, hpushed⟩

end Uploader

/-- **What a run publishes of its store**, whatever the service does: the files that it fetches and
publishes are what is at the address of the store, and the store itself, once. It is published with
its own rows if there was nothing to fetch or nothing came under its name, and else merged with what
came; if that cannot be merged, it is not published. Its own rows are those in the archive, if the
service writes only what it fetches and the archive put nothing into the place of the downloads. -/
theorem run_pushes {u : Uploader} {s : ImageService σ} {t : FileTree} {st : σ} {address : String}
    {files : List (Path × Snapshot)}
    (h : .push address files ∈ ((u.run s).exec ⟨t, [], st⟩).2.journal) :
    ∃ m metadata w rows,
      let store := u.bundle / metadata.source
      let x := u.fetched s address w
      (u.prepare s).exec ⟨t.place u.scratch .directory, [], st⟩ = (.ok (m, metadata), w) ∧
        u.address metadata.address = .ok address ∧ files = [(store, rows)] ∧
        ((u.run s).exec ⟨t, [], st⟩).2.exchanges =
          [.pull address u.downloads, .push address files] ∧
        u.Pushed x store rows ∧
        (Clear t u.scratch → s.Modest → (u.extracted t).node? u.downloads.parts = none →
          storeAt x.files store = storeAt (u.extracted t) store) := by
  have hmem : .push address files ∈ ((u.run s).exec ⟨t, [], st⟩).2.exchanges :=
    List.mem_filter.2 ⟨h, rfl⟩
  have hkept := Uploader.keeps_prepare_exchanges (s := s) u []
    ⟨t.place u.scratch .directory, [], st⟩ rfl
  have hrun : ((u.run s).exec ⟨t, [], st⟩).2.exchanges =
      ((u.prepare s >>= fun x => u.publishMetadata s x.1 x.2).exec
        ⟨t.place u.scratch .directory, [], st⟩).2.exchanges := rfl
  rw [hrun, Run.exec_bind] at hmem ⊢
  rcases hp : (u.prepare s).exec ⟨t.place u.scratch .directory, [], st⟩ with ⟨e | ⟨m, metadata⟩, w⟩
  · rw [hp] at hmem hkept
    dsimp only at hmem hkept
    rw [hkept] at hmem
    cases hmem
  · rw [hp] at hmem hkept
    obtain ⟨haddress, hexchanges, rows, hfiles, hpushed⟩ :=
      Uploader.publishMetadata_pushes hkept hmem
    refine ⟨m, metadata, w, rows, rfl, haddress, hfiles, hexchanges, hpushed, fun hc hm hfree => ?_⟩
    have hfile := (Uploader.prepare_reads hp).2 metadata.source (by simp [Uploader.sources])
    exact Uploader.storeAt_fetched hc hm hfree hfile address (Uploader.prepare_files hm hp)

/-- A bundle is published to a registry that holds nothing, with the rows in its archive. -/
theorem run_pushes_void :
    let u := sampleUploader
    let t := sampleFiles (sampleBundle (sampleStore ["cluster"]))
    let s := ImageService.void
    Clear t u.scratch ∧ s.Modest ∧ (u.extracted t).node? u.downloads.parts = none ∧
      ∃ address files, .push address files ∈ ((u.run s).exec ⟨t, [], ()⟩).2.journal ∧
        ∃ m metadata w rows,
          let store := u.bundle / metadata.source
          let x := u.fetched s address w
          (u.prepare s).exec ⟨t.place u.scratch .directory, [], ()⟩ = (.ok (m, metadata), w) ∧
            u.address metadata.address = .ok address ∧ files = [(store, rows)] ∧
            ((u.run s).exec ⟨t, [], ()⟩).2.exchanges =
              [.pull address u.downloads, .push address files] ∧
            u.Pushed x store rows ∧ storeAt x.files store = storeAt (u.extracted t) store := by
  intro u t s
  have hc : Clear t u.scratch := clear_sampleFiles _
  have hfree : (u.extracted t).node? u.downloads.parts = none := by
    have hnone : ((u.extracted t).node? u.downloads.parts).isNone := by decide +kernel
    exact Option.isNone_iff_eq_none.1 hnone
  obtain ⟨address, files, hpush⟩ :
      ∃ address files, .push address files ∈ ((u.run s).exec ⟨t, [], ()⟩).2.journal := by
    have hany : ((u.run s).exec ⟨t, [], ()⟩).2.journal.any fun
        | .push _ _ => true
        | _ => false := by decide +kernel
    obtain ⟨e, he, hpush⟩ := List.any_eq_true.1 hany
    cases e with
    | push address files => exact ⟨address, files, he⟩
    | _ => cases hpush
  obtain ⟨m, metadata, w, rows, hprep, haddress, hfiles, hexchanges, hpushed, hown⟩ :=
    run_pushes hpush
  exact ⟨hc, ImageService.modest_void, hfree, address, files, hpush, m, metadata, w, rows, hprep,
    haddress, hfiles, hexchanges, hpushed, hown hc ImageService.modest_void hfree⟩

/-- **The store of a bundle is replaced by the published one** if the archive holds a link from the
place of the downloads to the directory of the bundle: the row in the archive is not published. -/
theorem run_pushes_overwritten :
    let u := sampleUploader
    let t := sampleFiles (sampleBundle (sampleStore ["cluster"]) ++
      [⟨"inventory-metadata", .symlink "plugin_bundle"⟩])
    let shelf : Shelf := [("r.io/inventory", "s.db", .store (sampleStore ["apps"]))]
    let r := (u.run Shelf.service).exec ⟨t, [], shelf⟩
    (buildsAt (u.extracted t) (u.bundle / "s.db")).map Build.name = [some "cluster"] ∧
      r.1.isOk ∧ r.2.exchanges.any fun
        | .push address [(file, .ok rows)] => address = "r.io/inventory" ∧
          file = u.bundle / "s.db" ∧ rows.map Row.name = [some "apps"]
        | _ => false := by
  decide +kernel

end PluginCatalog
