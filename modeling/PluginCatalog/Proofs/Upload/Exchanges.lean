import PluginCatalog.Proofs.Upload.Steps

/-!
# The steps of publishing a store

A store is published in two steps: what the repository has of it is fetched and merged into it, and
then it is pushed. Each step can go in a few ways.

* `Uploader.fetched` is the reply when the store is fetched; `Uploader.afterFetch` and
  `Uploader.afterPush` are the worlds after the two calls.
* `Uploader.MergesPublished`, `Uploader.PushesStore` and, for both steps, `Uploader.PublishesStore`
  list the ways, with the end of each. That there are no other ways is said by
  `mergesPublished_exec`, `pushesStore_exec` and `publishesStore_exec`.
* `Uploader.after_mergePublished` and `Uploader.after_pushStore`: what holds after a step.
-/

namespace PluginCatalog.Uploader

variable {σ : Type}

/-! ## Calls -/

/-- How the failure of fetching is worded. -/
def pullFailed (address : String) : Failure → Failure
  | .image cause => .upload (.notPulled address cause)
  | failure => failure

/-- How the failure of publishing the store is worded. -/
def pushFailed (address : String) : Failure → Failure
  | .image cause => .upload (.notPushed address cause)
  | failure => failure

/-- What is fetched before a store is merged. -/
def fetched (u : Uploader) (s : ImageService σ) (address : String) (w : World σ) : Reply σ :=
  s.pull address u.downloads (w.files.ensureDirectory u.downloads).1 w.services

/-- The world in which the directory for what is fetched was ensured. -/
def ensured (u : Uploader) (w : World σ) : World σ :=
  { w with files := (w.files.ensureDirectory u.downloads).1 }

/-- The world in which what is published of a store was fetched. -/
def afterFetch (u : Uploader) (s : ImageService σ) (address : String) (w : World σ) : World σ :=
  (u.ensured w).after (.pull address u.downloads) (u.fetched s address w)

/-- The world in which a store was pushed. -/
def afterPush (s : ImageService σ) (address : String) (store : Path) (w : World σ) : World σ :=
  (w.noting .info s!"Uploading image '{address}'").after
    (.push address [(store, snapshotAt w.files store)]) (s.push address [store] w.files w.services)

section Ways

variable (u : Uploader) (s : ImageService σ)

/-! ## Merging what is published -/

/-- The ways in which what is published of a store is merged into it: it is fetched if there is a
place for it, and merged if it was there. -/
inductive MergesPublished (address : String) (store : Path) (w : World σ) :
    Except Failure Unit × World σ → Prop where
  | unmade {cause : FileFault} (hmade : (w.files.ensureDirectory u.downloads).2 = .error cause) :
    MergesPublished address store w (.error (.fault (.file cause)), u.ensured w)
  | failed {e : Failure} (hmade : (w.files.ensureDirectory u.downloads).2 = .ok ())
    (ho : (u.fetched s address w).outcome = .error e)
    (ha : ∀ message, e ≠ .image (.absent message)) :
    MergesPublished address store w (.error (pullFailed address e), u.afterFetch s address w)
  | absent {message : String} (text : String)
    (hmade : (w.files.ensureDirectory u.downloads).2 = .ok ())
    (ho : (u.fetched s address w).outcome = .error (.image (.absent message))) :
    MergesPublished address store w (.ok (), (u.afterFetch s address w).noting .info text)
  | merged {answer : Except Failure Bool} {w' : World σ} (text : String)
    (hmade : (w.files.ensureDirectory u.downloads).2 = .ok ())
    (ho : (u.fetched s address w).outcome = .ok ())
    (hm : (mergeStore store (u.downloads / store.name)).exec
      ((u.afterFetch s address w).noting .info text) = (answer, w')) :
    MergesPublished address store w ((answer.mapError mergeFailed).map fun _ => (), w')

/-- **What is published of a store is merged into it** in one of the ways. -/
theorem mergesPublished_exec (address : String) (store : Path) (w : World σ) :
    u.MergesPublished s address store w ((u.mergePublished s address store).exec w) := by
  unfold mergePublished
  rw [Run.exec_bind, Run.exec_files]
  dsimp only
  rw [Run.exec_bind, Run.exec_setFiles]
  dsimp only
  rw [Run.exec_bind, Run.exec_ofExcept]
  rcases hmade : (w.files.ensureDirectory u.downloads).2 with cause | _
  · exact .unmade hmade
  dsimp only [Except.mapError]
  rw [Run.exec_bind, ImageService.pullFiles, ImageService.exec_calling]
  rcases ho : (u.fetched s address w).outcome with e | _
  · rw [fetched] at ho
    rw [ho]
    cases e with
    | image cause =>
      cases cause with
      | absent message => exact .absent _ hmade ho
      | failed message => exact .failed hmade ho fun _ => nofun
    | _ => exact .failed hmade ho fun _ => nofun
  · rw [fetched] at ho
    rw [ho]
    dsimp only
    rw [Run.exec_bind, Run.exec_note]
    dsimp only
    rw [Run.exec_bind, Run.exec_adapt]
    generalize hm : Run.exec (mergeStore _ _) _ = r
    obtain ⟨e | answer, w'⟩ := r
    · exact .merged _ hmade ho hm
    · exact .merged _ hmade ho hm

/-! ## Pushing the store -/

/-- The ways in which a store is pushed; in the end an address of the inventory is made. -/
inductive PushesStore (m : Manifest) (address : String) (store : Path) (w : World σ) :
    Except Failure String × World σ → Prop where
  | failed {e : Failure} (ho : (s.push address [store] w.files w.services).outcome = .error e) :
    PushesStore m address store w (.error (pushFailed address e), afterPush s address store w)
  | unplaced {e : Failure} (ho : (s.push address [store] w.files w.services).outcome = .ok ())
    (ha : u.address m.inventoryAddress = .error e) :
    PushesStore m address store w (.error e, afterPush s address store w)
  | pushed {inventory : String} (text : String)
    (ho : (s.push address [store] w.files w.services).outcome = .ok ())
    (ha : u.address m.inventoryAddress = .ok inventory) :
    PushesStore m address store w (.ok inventory, (afterPush s address store w).noting .info text)

/-- **A store is pushed** in one of the ways. -/
theorem pushesStore_exec (m : Manifest) (address : String) (store : Path) (w : World σ) :
    u.PushesStore s m address store w ((u.pushStore s m address store).exec w) := by
  unfold pushStore ImageService.pushFiles
  rw [Run.exec_bind, Run.exec_note]
  dsimp only
  rw [Run.exec_bind, Run.exec_bind, Run.exec_files]
  dsimp only
  rw [ImageService.exec_calling]
  rcases ho : (s.push address [store] w.files w.services).outcome with e | _
  · simp only [World.files_noting, World.services_noting, ho]
    cases e <;> exact .failed ho
  · simp only [World.files_noting, World.services_noting, ho]
    rw [Run.exec_bind, Run.exec_ofExcept]
    rcases ha : u.address m.inventoryAddress with e | inventory
    · exact .unplaced ho ha
    · exact .pushed _ ho ha

/-! ## Both steps -/

/-- The ways in which a store is published: at an address, and if it was merged. -/
inductive PublishesStore (m : Manifest) (metadata : MetadataImage) (w : World σ) :
    Except Failure String × World σ → Prop where
  | unplaced {e : Failure} (ha : u.address metadata.address = .error e) :
    PublishesStore m metadata w (.error e, w)
  | unmerged {address : String} {e : Failure} {w' : World σ} (text : String)
    (ha : u.address metadata.address = .ok address)
    (hm : (u.mergePublished s address (u.bundle / metadata.source)).exec (w.noting .info text) =
      (.error e, w')) :
    PublishesStore m metadata w (.error e, w')
  | merged {address : String} {w' : World σ} (text : String)
    (ha : u.address metadata.address = .ok address)
    (hm : (u.mergePublished s address (u.bundle / metadata.source)).exec (w.noting .info text) =
      (.ok (), w')) :
    PublishesStore m metadata w ((u.pushStore s m address (u.bundle / metadata.source)).exec w')

/-- **A store is published** in one of the ways. -/
theorem publishesStore_exec (m : Manifest) (metadata : MetadataImage) (w : World σ) :
    u.PublishesStore s m metadata w ((u.publishMetadata s m metadata).exec w) := by
  unfold publishMetadata
  dsimp only
  rw [Run.exec_bind, Run.exec_ofExcept]
  rcases ha : u.address metadata.address with e | address
  · exact .unplaced ha
  dsimp only
  rw [Run.exec_bind, Run.exec_note]
  dsimp only
  rw [Run.exec_bind]
  rcases hm : (u.mergePublished s address (u.bundle / metadata.source)).exec
    (w.noting .info "Publishing plugin inventory metadata image...") with ⟨e | _, w'⟩
  · exact .unmerged _ ha hm
  · exact .merged _ ha hm

end Ways

/-! ## What holds after a step -/

section After

variable {u : Uploader} {s : ImageService σ} {address : String} {store : Path} {w : World σ}
  {I : World σ → Prop} (hn : ∀ w level text, I w → I (w.noting level text))

include hn

/-- What holds after the merge, if it holds where there is no place for what is fetched, and where
it was fetched, and if it is kept when the lock is taken and when the store is written. -/
theorem after_mergePublished
    (hlock : ∀ w t, I w → w.files.takeLock store.lock = .ok t → I { w with files := t })
    (hwrite : ∀ w store', I w → I { w with files := replaceStore w.files store store' })
    (hunmade : ∀ cause, (w.files.ensureDirectory u.downloads).2 = .error cause → I (u.ensured w))
    (hfetched : (w.files.ensureDirectory u.downloads).2 = .ok () → I (u.afterFetch s address w)) :
    I ((u.mergePublished s address store).exec w).2 := by
  have h := u.mergesPublished_exec s address store w
  generalize (u.mergePublished s address store).exec w = r at h
  cases h with
  | unmade hmade => exact hunmade _ hmade
  | failed hmade => exact hfetched hmade
  | absent text hmade => exact hn _ _ _ (hfetched hmade)
  | merged text hmade _ hm =>
    exact (keeps_mergeStore hn hlock hwrite _).of_exec hm (hn _ _ _ (hfetched hmade))

/-- What holds after a store was pushed, if it holds after the call. -/
theorem after_pushStore {m : Manifest} (hpush : I (afterPush s address store w)) :
    I ((u.pushStore s m address store).exec w).2 := by
  have h := u.pushesStore_exec s m address store w
  generalize (u.pushStore s m address store).exec w = r at h
  cases h with
  | failed => exact hpush
  | unplaced => exact hpush
  | pushed => exact hn _ _ _ hpush

end After

end PluginCatalog.Uploader
