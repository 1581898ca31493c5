import PluginCatalog.Proofs.Archive.Plain
import PluginCatalog.Proofs.Upload.Exchanges
import PluginCatalog.Proofs.Upload.Own

/-!
# What a run hands over

* `ImageService.Modest` are the services that write only what they fetch; `ImageService.watched` is
  a service with the files that it was handed.
* `Uploader.steps_intact`: if the paths of its manifest stay in the directory of a run, then it
  leaves the files of its bundle where they are, and hands over only these.
* `Uploader.prepare_ok`: a run that comes to its store has handed over all images of its manifest.
-/

namespace PluginCatalog

open FileTree

variable {σ : Type}

namespace ImageService

/-- A service that writes only into the directories into which it fetches. -/
structure Modest (s : ImageService σ) : Prop where
  copied : ∀ image address t st, (s.copy image address t st).files = t
  pushed : ∀ address paths t st, (s.push address paths t st).files = t
  pulled : ∀ address directory t st loc, t.follow directory = .ok (.taken loc .directory) →
    ∀ l, ¬(loc <+: l ∧ l ≠ loc) → (s.pull address directory t st).files.node? l = t.node? l

/-- The files that a service was handed, each with the tree as it was then. -/
abbrev Handed := List (FileTree × Path)

/-- A service that keeps the files that it is handed. -/
def watched (s : ImageService σ) : ImageService (σ × Handed) where
  copy image address t st :=
    let r := s.copy image address t st.1
    ⟨r.files, (r.services, st.2 ++ [(t, image)]), r.activities, r.outcome⟩
  push address paths t st :=
    let r := s.push address paths t st.1
    ⟨r.files, (r.services, st.2 ++ paths.map (t, ·)), r.activities, r.outcome⟩
  pull address directory t st :=
    let r := s.pull address directory t st.1
    ⟨r.files, (r.services, st.2), r.activities, r.outcome⟩

theorem Modest.watched {s : ImageService σ} (hs : s.Modest) : s.watched.Modest where
  copied image address t st := hs.copied image address t st.1
  pushed address paths t st := hs.pushed address paths t st.1
  pulled address directory t st := hs.pulled address directory t st.1

/-- A property of the states of a service that it keeps as long as it is handed files of a bundle.
-/
structure Holds (s : ImageService σ) (R : σ → Prop) (extracted : FileTree) (root : Location) :
    Prop where
  copied : ∀ image address t st, R st → OwnFile extracted root t image →
    R (s.copy image address t st).services
  pushed : ∀ address p t st, R st → OwnFile extracted root t p →
    R (s.push address [p] t st).services
  pulled : ∀ address directory t st, R st → R (s.pull address directory t st).services

theorem holds_true (s : ImageService σ) (extracted : FileTree) (root : Location) :
    s.Holds (fun _ => True) extracted root := ⟨by simp, by simp, by simp⟩

theorem watched_holds (s : ImageService σ) (extracted : FileTree) (root : Location) :
    s.watched.Holds (fun st => ∀ f ∈ st.2, OwnFile extracted root f.1 f.2) extracted root where
  copied image address t st h hown := by
    refine List.forall_mem_append.2 ⟨h, ?_⟩
    simpa using hown
  pushed address p t st h hown := by
    refine List.forall_mem_append.2 ⟨h, ?_⟩
    simpa using hown
  pulled address directory t st h := h

end ImageService

/-! ## Changes of a store -/

/-- A file of a bundle stays one when a store is written to it. -/
theorem Later.replaceStore {extracted t : FileTree} {root : Location} {aside : String}
    (h : Later extracted root aside t) (hs : Sealed extracted root) {p : Path}
    (hown : OwnFile extracted root t p) (store : Store) :
    Later extracted root aside (PluginCatalog.replaceStore t p store) := by
  obtain ⟨loc, serial, c, c', hin, hne, hnode, hspot⟩ := hown
  unfold PluginCatalog.replaceStore
  rw [hspot]
  exact h.setContent (hs.inner hin hne hnode) _

namespace Uploader

variable {s : ImageService σ} {u : Uploader} {extracted : FileTree} {R : σ → Prop}

/-- What a run keeps after its bundle was unpacked. -/
def Intact (u : Uploader) (extracted : FileTree) (R : σ → Prop) (w : World σ) : Prop :=
  Later extracted u.scratch.parts downloadName w.files ∧ R w.services

/-- A path leads to a file of the bundle whatever is written later. -/
def Owns (u : Uploader) (extracted : FileTree) (p : Path) : Prop :=
  ∀ t, Later extracted u.scratch.parts downloadName t → OwnFile extracted u.scratch.parts t p

/-- Publishing images changes no files, and hands over what is in the bundle. -/
theorem keeps_copyImages_own (hm : s.Modest) (hR : s.Holds R extracted u.scratch.parts)
    {m : Manifest} (hown : ∀ image ∈ m.images, u.Owns extracted (u.bundle / image.source)) :
    Run.Keeps (fun w => w.files = extracted ∧ R w.services) (u.copyImages s m) := by
  refine keeps_copyImages (fun _ _ _ h => h) (fun _ _ h => h) fun image himage address => ?_
  rintro w ⟨rfl, h⟩
  rw [ImageService.copyImage, ImageService.exec_calling]
  refine ⟨hm.copied _ address w.files w.services, hR.copied _ address w.files w.services h ?_⟩
  exact hown image himage w.files (.refl _ _ _)

theorem keeps_pushStore_intact (hm : s.Modest) (hR : s.Holds R extracted u.scratch.parts)
    {store : Path} (hown : u.Owns extracted store) (m : Manifest) (address : String) :
    Run.Keeps (u.Intact extracted R) (u.pushStore s m address store) := by
  intro w h
  refine after_pushStore (I := u.Intact extracted R) (fun _ _ _ h => h) ⟨?_, ?_⟩
  · change Later _ _ _ (s.push address [store] w.files w.services).files
    rw [hm.pushed]
    exact h.1
  · exact hR.pushed address store w.files w.services h.2 (hown _ h.1)

/-! ## The steps of a run -/

theorem downloads_eq (u : Uploader) :
    u.downloads = ⟨u.scratch.slashes, u.scratch.parts ++ [downloadName]⟩ := by
  have hname : Path.ofText downloadName = ⟨0, [downloadName]⟩ := by decide +kernel
  change u.scratch.append (Path.ofText downloadName) = _
  rw [hname]
  rfl

theorem parts_downloads (u : Uploader) : u.downloads.parts = u.scratch.parts ++ [downloadName] := by
  rw [downloads_eq]

theorem isAbsolute_downloads (hp : u.scratch.isAbsolute) : u.downloads.isAbsolute := by
  rw [downloads_eq]
  exact hp

theorem isName_downloadName : IsName downloadName := ⟨by decide, by decide⟩

/-- The directory for the downloads is made beside the files of the bundle, and is one then. -/
theorem downloads_made (hp : u.scratch.isAbsolute) (hpaved : Paved extracted u.scratch.parts)
    (hs : Sealed extracted u.scratch.parts) :
    Later extracted u.scratch.parts downloadName (extracted.ensureDirectory u.downloads).1 ∧
      ((extracted.ensureDirectory u.downloads).2 = .ok () →
        (extracted.ensureDirectory u.downloads).1.follow u.downloads =
          .ok (.taken u.downloads.parts .directory)) := by
  have hparts := u.parts_downloads
  have hne : u.scratch.parts ++ [downloadName] ≠ u.scratch.parts := by simp
  obtain ⟨hmade, hdir⟩ := hpaved.ensureDirectory_child (isAbsolute_downloads hp) hparts
    isName_downloadName fun target => by
      rw [hparts]
      exact hs.links _ target (List.prefix_append _ _) hne
  have hlater : Later extracted u.scratch.parts downloadName
      (extracted.ensureDirectory u.downloads).1 := by
    refine (Later.refl extracted _ _).of_aside fun loc haside => ?_
    rcases hmade with hsame | hset
    · rw [hsame]
    · rw [hset, node?_set _ (by simp [hparts]), if_neg]
      rintro rfl
      exact haside (hparts ▸ List.prefix_rfl)
  refine ⟨hlater, fun hensure => Paved.follow (isAbsolute_downloads hp) ?_⟩
  rw [hparts]
  exact (hlater.paved hpaved).snoc isName_downloadName (hparts ▸ hdir hensure)

/-- **Merging what was published** leaves the files of the bundle. -/
theorem mergePublished_intact (hm : s.Modest) (hR : s.Holds R extracted u.scratch.parts)
    (hp : u.scratch.isAbsolute) (hpaved : Paved extracted u.scratch.parts)
    (hs : Sealed extracted u.scratch.parts) {store : Path} (hown : u.Owns extracted store)
    (hlock : u.LocksIn extracted store) (address : String) {w : World σ}
    (hw : w.files = extracted) (h : R w.services) :
    u.Intact extracted R ((u.mergePublished s address store).exec w).2 := by
  obtain ⟨hlater, hfollow⟩ := downloads_made hp hpaved hs
  subst hw
  refine after_mergePublished (I := u.Intact w.files R) (fun _ _ _ h => h)
    (fun w' t h ht => ⟨h.1.takeLock hs hpaved (hlock _ h.1) ht, h.2⟩)
    (fun w' store' h => ⟨h.1.replaceStore hs (hown _ h.1) store', h.2⟩) (fun _ _ => ⟨hlater, h⟩)
    fun hmade => ⟨hlater.of_aside fun loc haside => ?_, hR.pulled address u.downloads _ _ h⟩
  refine hm.pulled address u.downloads _ _ _ (hfollow hmade) loc fun hloc => haside ?_
  exact u.parts_downloads ▸ hloc.1

/-- **Before the store is published** nothing is written but the bundle, and only what the manifest
names is handed over. -/
theorem prepare_own (hm : s.Modest) (hR : s.Holds R extracted u.scratch.parts) {w : World σ}
    (hw : (extractFrom w.files u.archive u.scratch).1 = extracted) (h : R w.services)
    (hown : ∀ m metadata, u.Reads extracted m metadata → ∀ source ∈ sources m metadata,
      extracted.isFile (u.bundle / source) → u.Owns extracted (u.bundle / source)) :
    ((u.prepare s).exec w).2.files = extracted ∧ R ((u.prepare s).exec w).2.services := by
  have hfiles := unpack_files u w
  have hservices := keeps_unpack (I := fun w => R w.services) (fun _ _ _ h => h)
    (fun _ _ h => h) u w h
  rw [hw] at hfiles
  have hways := u.prepares_exec s w
  generalize (u.prepare s).exec w = r at hways
  cases hways with
  | notUnpacked hu =>
    rw [hu] at hfiles hservices
    exact ⟨hfiles, hservices⟩
  | refused hu =>
    rw [hu] at hfiles hservices
    exact ⟨hfiles, hservices⟩
  | missing hu =>
    rw [hu] at hfiles hservices
    exact ⟨hfiles, hservices⟩
  | @found m metadata w₁ w₂ answer hu hc hfound hcopy =>
    rw [hu] at hfiles hservices
    have hreads : u.Reads extracted m metadata := ⟨hw ▸ (unpack_inv hu).2.1, hc⟩
    have himages : ∀ image ∈ m.images, u.Owns extracted (u.bundle / image.source) := by
      intro image himage
      have hsource : image.source ∈ sources m metadata :=
        List.mem_append_left _ (List.mem_map_of_mem himage)
      exact hown m metadata hreads _ hsource (hfiles ▸ hfound _ hsource)
    exact (keeps_copyImages_own hm hR himages).of_exec hcopy ⟨hfiles, hservices⟩

/-- **All steps of a run** leave the files of its bundle. -/
theorem steps_intact (hm : s.Modest) (hR : s.Holds R extracted u.scratch.parts)
    (hp : u.scratch.isAbsolute) (hpaved : Paved extracted u.scratch.parts)
    (hs : Sealed extracted u.scratch.parts) {w : World σ}
    (hw : (extractFrom w.files u.archive u.scratch).1 = extracted) (h : R w.services)
    (hown : ∀ m metadata, u.Reads extracted m metadata → ∀ source ∈ sources m metadata,
      isOwn source) :
    u.Intact extracted R ((do
      let (m, metadata) ← u.prepare s
      u.publishMetadata s m metadata : Run σ String).exec w).2 := by
  have howns : ∀ m metadata, u.Reads extracted m metadata → ∀ source ∈ sources m metadata,
      extracted.isFile (u.bundle / source) → u.Owns extracted (u.bundle / source) :=
    fun m metadata hr source hsource hfile t ht =>
      ownFile_of_isOwn hp hpaved hs (hown m metadata hr source hsource) hfile ht
  obtain ⟨hfiles, hservices⟩ := prepare_own hm hR hw h howns
  rw [Run.exec_bind]
  rcases hprep : (u.prepare s).exec w with ⟨e | ⟨m, metadata⟩, w₁⟩
  · rw [hprep] at hfiles hservices
    exact ⟨hfiles ▸ .refl _ _ _, hservices⟩
  rw [hprep] at hfiles hservices
  obtain ⟨hreads, hfile⟩ := hw ▸ prepare_reads hprep
  have hmem : metadata.source ∈ sources m metadata := by simp [sources]
  have hstore := howns m metadata hreads _ hmem (hfile _ hmem)
  have hlock := locksIn_of_isOwn hp hpaved hs (hown m metadata hreads _ hmem)
  have hmerge {address text : String} {answer : Except Failure Unit} {w' : World σ}
      (hexec : (u.mergePublished s address (u.bundle / metadata.source)).exec
        (w₁.noting .info text) = (answer, w')) : u.Intact extracted R w' := by
    have hkept := mergePublished_intact hm hR hp hpaved hs hstore hlock address
      (w := w₁.noting .info text) hfiles hservices
    rwa [hexec] at hkept
  have hways := u.publishesStore_exec s m metadata w₁
  dsimp only
  generalize (u.publishMetadata s m metadata).exec w₁ = r at hways
  cases hways with
  | unplaced =>
    change w₁.files = extracted at hfiles
    exact ⟨hfiles ▸ .refl _ _ _, hservices⟩
  | unmerged text _ hfail => exact hmerge hfail
  | merged text _ hok => exact keeps_pushStore_intact hm hR hstore m _ _ (hmerge hok)

/-! ## What is handed over -/

theorem pause_ok {number : Nat} {w w' : World σ} (h : (u.pause number).exec w = (.ok (), w')) :
    w'.files = w.files ∧ w'.services = w.services := by
  unfold pause at h
  split at h
  · obtain ⟨_, w₁, hwait, h⟩ := Run.exec_bind_ok h
    rw [Run.exec_ofExcept] at hwait
    obtain ⟨-, rfl⟩ := Prod.mk.inj hwait
    obtain ⟨-, rfl⟩ := Prod.mk.inj h
    exact ⟨rfl, rfl⟩
  · obtain ⟨-, rfl⟩ := Prod.mk.inj h
    exact ⟨rfl, rfl⟩

/-- The images before one that fails are handed over. -/
theorem copyImage_ok (hm : s.Modest) {total number : Nat} {image : ImageCopy}
    {w w' : World (σ × ImageService.Handed)}
    (h : (u.copyImage s.watched total number image).exec w = (.ok (), w')) :
    w'.files = w.files ∧
      w'.services.2 = w.services.2 ++ [(w.files, u.bundle / image.source)] := by
  unfold copyImage at h
  obtain ⟨_, w₁, hpause, h⟩ := Run.exec_bind_ok h
  obtain ⟨hfiles, hservices⟩ := pause_ok hpause
  obtain ⟨address, w₂, haddress, h⟩ := Run.exec_bind_ok h
  rw [Run.exec_ofExcept] at haddress
  obtain ⟨-, rfl⟩ := Prod.mk.inj haddress
  rw [Run.exec_bind, Run.exec_note] at h
  dsimp only at h
  obtain ⟨outcome, w₃, hcall, h⟩ := Run.exec_bind_ok h
  obtain ⟨rfl, -⟩ := ImageService.calling_ok hcall
  split at h
  · rw [Run.exec_bind, Run.exec_note] at h
    cases (Prod.mk.inj h).1
  · rw [Run.exec_note] at h
    obtain ⟨-, rfl⟩ := Prod.mk.inj h
    rw [← hfiles, ← hservices]
    exact ⟨hm.copied _ _ _ _, rfl⟩

theorem copyFrom_ok (hm : s.Modest) {total number : Nat} {images : List ImageCopy}
    {w w' : World (σ × ImageService.Handed)}
    (h : (u.copyFrom s.watched total number images).exec w = (.ok (), w')) :
    w'.files = w.files ∧
      w'.services.2 = w.services.2 ++ images.map fun i => (w.files, u.bundle / i.source) := by
  induction images generalizing number w with
  | nil =>
    obtain ⟨-, rfl⟩ := Prod.mk.inj h
    simp
  | cons image rest ih =>
    obtain ⟨_, w₁, hfirst, hrest⟩ := Run.exec_bind_ok h
    obtain ⟨hfiles, hhanded⟩ := copyImage_ok hm hfirst
    obtain ⟨hfiles', hhanded'⟩ := ih hrest
    refine ⟨hfiles'.trans hfiles, ?_⟩
    rw [hhanded', hhanded, hfiles, List.append_assoc]
    rfl

/-- **A run that comes to its store** has handed over all images of its manifest. -/
theorem prepare_ok (hm : s.Modest) {m : Manifest} {metadata : MetadataImage}
    {w w' : World (σ × ImageService.Handed)}
    (h : (u.prepare s.watched).exec w = (.ok (m, metadata), w')) :
    w'.files = (extractFrom w.files u.archive u.scratch).1 ∧ w'.services.2 = w.services.2 ++
      m.images.map fun i => ((extractFrom w.files u.archive u.scratch).1, u.bundle / i.source) := by
  obtain ⟨w₁, hunpack, -, -, hcopy⟩ := prepare_inv h
  have hfiles := unpack_files u w
  have hservices := keeps_unpack (I := fun w' => w'.services = w.services) (fun _ _ _ h => h)
    (fun _ _ h => h) u w rfl
  rw [hunpack] at hfiles hservices
  dsimp only at hfiles hservices
  unfold copyImages at hcopy
  split at hcopy
  · cases (Prod.mk.inj hcopy).1
  · rw [Run.exec_bind, Run.exec_note] at hcopy
    obtain ⟨hsame, hhanded⟩ := copyFrom_ok hm hcopy
    rw [World.files_noting] at hsame hhanded
    rw [World.services_noting] at hhanded
    rw [hhanded, hsame, hfiles, hservices]
    exact ⟨rfl, rfl⟩

end Uploader

end PluginCatalog
