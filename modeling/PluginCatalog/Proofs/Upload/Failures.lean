import PluginCatalog.Proofs.Store.FailedMerges
import PluginCatalog.Proofs.Upload.CallOrder
import PluginCatalog.Proofs.Upload.OwnFiles

/-!
# How a run fails

A run words the failures of its steps; a fault that arises in one of them is passed on as it is.

* `extractFrom_errorIn`, `Manifest.ofFile_errorIn` and their like: which step fails in which way.
* `FailsWith F r`: a result fails with an error of the run's own or with a fault, and with the
  faults of `F` alone. `Uploader.copyImages_failsWith`, `Uploader.prepare_failsWith`,
  `Uploader.mergePublished_failsWith` and `Uploader.publishMetadata_failsWith` say so of the steps.
* `Uploader.Faulty` lists the faults of a run. They come from unpacking, from reading the manifest,
  from a pause that is refused, and from the system, which does not make the directory for downloads
  or does not give the lock of the store.
* `Uploader.run_failed`: a run without such a fault gives an address or an error of its own, and
  one that has it ends with it. `Uploader.run_faulty` is a run that ends so after its image was
  published.
-/

namespace PluginCatalog

variable {σ : Type}

/-! ## Unpacking -/

/-- An error of an archive, or a fault. -/
def Failure.OfArchive (e : Failure) : Prop :=
  (∃ cause, e = .archive cause) ∨ ∃ cause, e = .fault cause

theorem errorIn_ofFault {α : Type} (r : Except Fault α) :
    ErrorIn Failure.OfArchive (r.mapError .fault) := by
  cases r with
  | error cause => exact errorIn_error (.inr ⟨cause, rfl⟩)
  | ok a => exact errorIn_ok a

theorem errorIn_checkMember (t : FileTree) (archive destination : Path) (root : Location)
    (m : Member) : ErrorIn Failure.OfArchive (checkMember t archive destination root m) := by
  unfold checkMember
  refine errorIn_bind (errorIn_ofFault _) fun place => ?_
  dsimp only
  split
  · exact errorIn_error (.inl ⟨_, rfl⟩)
  refine errorIn_bind (errorIn_ofFault _) fun target => ?_
  split
  · exact errorIn_ok _
  · split
    · exact errorIn_error (.inl ⟨_, rfl⟩)
    · exact errorIn_ok _

/-- **An extraction fails** with an error of the archive or with a fault. -/
theorem extractFrom_errorIn (t : FileTree) (archive destination : Path) :
    ErrorIn Failure.OfArchive (extractFrom t archive destination).2 := by
  unfold extractFrom
  split
  · exact errorIn_error (.inl ⟨_, rfl⟩)
  · exact errorIn_error (.inl ⟨_, rfl⟩)
  · refine errorIn_error ?_
    split
    · exact .inl ⟨_, rfl⟩
    · exact .inr ⟨_, rfl⟩
  next a _ =>
    have hcheck : ErrorIn Failure.OfArchive (checkMembers t archive destination a.members) :=
      errorIn_bind (errorIn_ofFault _) fun root =>
        errorIn_forM fun m _ => errorIn_checkMember t archive destination root m
    split
    next e he => exact errorIn_error (hcheck e he)
    next =>
      split
      · exact errorIn_ok _
      next obstacle _ =>
        refine errorIn_error ?_
        cases obstacle with
        | system => exact .inl ⟨_, rfl⟩
        | noTarget | leftOut | endless => exact .inr ⟨_, rfl⟩

/-! ## Reading the manifest -/

/-- An error of a manifest, or a fault. -/
def Failure.OfManifest (e : Failure) : Prop :=
  (∃ cause, e = .manifest cause) ∨ ∃ cause, e = .fault cause

namespace Manifest

theorem errorIn_refuse {α : Type} (e : ManifestError) :
    ErrorIn Failure.OfManifest (refuse e : Except Failure α) := errorIn_error (.inl ⟨e, rfl⟩)

theorem errorIn_shown (text : Option String) : ErrorIn Failure.OfManifest (shown text) := by
  cases text with
  | none => exact errorIn_error (.inr ⟨_, rfl⟩)
  | some s => exact errorIn_ok s

theorem errorIn_textField (key : String) (entries : List (Value × Value)) :
    ErrorIn Failure.OfManifest (textField key entries) := by
  unfold textField
  split
  · exact errorIn_ok _
  · exact errorIn_ok _
  · exact errorIn_bind (errorIn_shown _) fun _ => errorIn_refuse _

theorem errorIn_imageOf (v : Value) : ErrorIn Failure.OfManifest (imageOf v) := by
  unfold imageOf
  split
  · refine errorIn_bind (errorIn_textField _ _) fun source => ?_
    exact errorIn_bind (errorIn_textField _ _) fun address => errorIn_ok _
  · exact errorIn_bind (errorIn_shown _) fun _ => errorIn_refuse _

theorem errorIn_imagesOf (v : Value) : ErrorIn Failure.OfManifest (imagesOf v) := by
  unfold imagesOf
  split
  · exact errorIn_ok _
  · exact errorIn_mapM fun item _ => errorIn_imageOf item
  · exact errorIn_refuse _

theorem errorIn_metadataOf (v : Value) : ErrorIn Failure.OfManifest (metadataOf v) := by
  unfold metadataOf
  split
  · exact errorIn_ok _
  · refine errorIn_bind (errorIn_textField _ _) fun source => ?_
    exact errorIn_bind (errorIn_textField _ _) fun address => errorIn_ok _
  · exact errorIn_bind (errorIn_shown _) fun _ => errorIn_refuse _

theorem errorIn_load (entries : List (Value × Value)) :
    ErrorIn Failure.OfManifest (load entries) := by
  unfold load ofEntries
  refine errorIn_bind ?_ fun m => ?_
  · refine errorIn_bind (errorIn_imagesOf _) fun images => ?_
    refine errorIn_bind (errorIn_metadataOf _) fun metadata => ?_
    exact errorIn_bind (errorIn_textField _ _) fun inventoryAddress => errorIn_ok _
  · split
    · exact errorIn_ok _
    · exact errorIn_refuse _

/-- **A manifest is refused**, or a fault arises while it is read. -/
theorem ofFile_errorIn (t : FileTree) (p : Path) : ErrorIn Failure.OfManifest (ofFile t p) := by
  have hload (entries : List (Value × Value)) {f : Failure → Failure}
      (hf : ∀ e, f (.manifest e) = .manifest (.invalid p e))
      (hfault : ∀ cause, f (.fault cause) = .fault cause) :
      ErrorIn Failure.OfManifest ((load entries).mapError f) := by
    refine errorIn_mapError (errorIn_load entries) ?_
    rintro e (⟨cause, rfl⟩ | ⟨cause, rfl⟩)
    · exact .inl ⟨_, hf cause⟩
    · exact .inr ⟨cause, hfault cause⟩
  unfold ofFile
  split
  · exact errorIn_refuse _
  · exact errorIn_refuse _
  · exact errorIn_error (.inr ⟨_, rfl⟩)
  · dsimp only
    split
    · exact hload [] (fun _ => rfl) fun _ => rfl
    · exact hload _ (fun _ => rfl) fun _ => rfl
    · exact errorIn_refuse _

end Manifest

/-! ## Calling services -/

/-- A service fails with errors of images only. -/
structure ImageService.Worded (s : ImageService σ) : Prop where
  copied : ∀ image address t st, ErrorIn (fun e => ∃ cause, e = .image cause)
    (s.copy image address t st).outcome
  pushed : ∀ address paths t st, ErrorIn (fun e => ∃ cause, e = .image cause)
    (s.push address paths t st).outcome
  pulled : ∀ address directory t st, ErrorIn (fun e => ∃ cause, e = .image cause)
    (s.pull address directory t st).outcome

/-- An error that a run words itself. -/
def Failure.IsUpload (e : Failure) : Prop := ∃ cause, e = .upload cause

/-! ## Faults of a result -/

/-- A result that fails with an error of the run's own or with a fault, and with which faults. -/
structure FailsWith {α : Type} (F : Fault → Prop) (r : Except Failure α) : Prop where
  worded : ∀ e, r = .error e → e.IsUpload ∨ ∃ cause, e = .fault cause
  fault_iff : ∀ cause, r = .error (.fault cause) ↔ F cause

namespace FailsWith

variable {α β : Type} {F G : Fault → Prop}

/-- A result without faults. -/
theorem of_errorIn {r : Except Failure α} (h : ErrorIn Failure.IsUpload r)
    (hF : ∀ cause, ¬F cause) : FailsWith F r where
  worded e he := .inl (h e he)
  fault_iff cause := by
    refine iff_of_false (fun he => ?_) (hF cause)
    obtain ⟨cause', hcause⟩ := h _ he
    cases hcause

/-- A fault. -/
theorem fault {cause : Fault} (hF : ∀ other, F other ↔ other = cause) :
    FailsWith F (.error (.fault cause) : Except Failure α) where
  worded e he := .inr ⟨cause, (Except.error.inj he).symm⟩
  fault_iff other := by
    rw [hF, Except.error.injEq, Failure.fault.injEq, eq_comm]

theorem congr {r : Except Failure α} (h : FailsWith F r) (hF : ∀ cause, F cause ↔ G cause) :
    FailsWith G r :=
  ⟨h.worded, fun cause => (h.fault_iff cause).trans (hF cause)⟩

theorem map {r : Except Failure α} (h : FailsWith F r) (f : α → β) : FailsWith F (r.map f) := by
  cases r with
  | ok a => exact ⟨nofun, fun cause => iff_of_false nofun ((h.fault_iff cause).not.1 nofun)⟩
  | error e =>
    refine ⟨fun e' he => h.worded e' (congrArg _ (Except.error.inj he)), fun cause => ?_⟩
    rw [← h.fault_iff, Except.map, Except.error.injEq, Except.error.injEq]

/-- A failure of one step is a failure of the steps together. -/
theorem of_error {e : Failure} (h : FailsWith F (.error e : Except Failure α)) :
    FailsWith F (.error e : Except Failure β) where
  worded e' he := h.worded e' (congrArg _ (Except.error.inj he))
  fault_iff cause := by rw [← h.fault_iff, Except.error.injEq, Except.error.injEq]

theorem not_of_ok {a : α} (h : FailsWith F (.ok a)) (cause : Fault) : ¬F cause :=
  (h.fault_iff cause).not.1 nofun

end FailsWith

namespace Uploader

variable {u : Uploader} {s : ImageService σ} {base : String}

/-! ## Publishing images -/

/-- How one image is published: its pause is refused, or its call fails, or all is well. -/
inductive CopiesImage (u : Uploader) (base : String) (total number : Nat) (image : ImageCopy)
    (outcome : Except Failure Unit) : Except Failure Unit → Prop where
  | refused {cause : Fault} (hr : u.RefusesPause number cause) :
    CopiesImage u base total number image outcome (.error (.fault cause))
  | failed {cause : ImageError} (hp : ∀ cause, ¬u.RefusesPause number cause)
    (ho : outcome = .error (.image cause)) :
    CopiesImage u base total number image outcome
      (.error (.upload (.notCopied number total (Address.join base image.address) cause)))
  | copied (hp : ∀ cause, ¬u.RefusesPause number cause) (ho : outcome = .ok ()) :
    CopiesImage u base total number image outcome (.ok ())

/-- **One image** is published in one of the ways. -/
theorem copiesImage_exec (hb : u.PublishesTo base) (hs : s.Worded) (total number : Nat)
    (image : ImageCopy) (w : World σ) :
    CopiesImage u base total number image (s.copy (u.bundle / image.source)
      (Address.join base image.address) w.files w.services).outcome
      ((u.copyImage s total number image).exec w).1 := by
  unfold copyImage
  rw [Run.exec_bind]
  rcases exec_pause (u := u) number w with ⟨cause, hr, hpause⟩ | ⟨hp, hpause⟩
  · rw [hpause]
    exact .refused hr
  rw [hpause]
  dsimp only
  rw [Run.exec_bind, Run.exec_ofExcept, hb.address]
  dsimp only
  rw [Run.exec_bind, Run.exec_note]
  dsimp only
  rw [Run.exec_bind, ImageService.copyImage, ImageService.exec_calling, World.files_noting,
    World.services_noting]
  rcases ho : (s.copy (u.bundle / image.source) (Address.join base image.address) w.files
    w.services).outcome with e | _
  · obtain ⟨cause, rfl⟩ := hs.copied _ _ _ _ _ ho
    exact .failed hp rfl
  · exact .copied hp rfl

/-- Where no pause is refused, images are published or the run words why not. -/
theorem failsIn_copyFrom (hb : u.PublishesTo base) (hs : s.Worded)
    (hp : ∀ number cause, ¬u.RefusesPause number cause) (total number : Nat)
    (images : List ImageCopy) :
    Run.FailsIn Failure.IsUpload (u.copyFrom s total number images) := by
  induction images generalizing number with
  | nil => exact Run.failsIn_pure _
  | cons image rest ih =>
    refine Run.failsIn_bind (fun w e he => ?_) fun _ => ih (number + 1)
    have hways := copiesImage_exec hb hs total number image w
    rw [he] at hways
    cases hways with
    | refused hr => exact absurd hr (hp _ _)
    | failed => exact ⟨_, rfl⟩

/-- The first image is published, and the pause before the second one is refused. -/
def StopsAtPause (u : Uploader) (s : ImageService σ) (images : List ImageCopy) (t : FileTree)
    (st : σ) (cause : Fault) : Prop :=
  ∃ first second rest address, images = first :: second :: rest ∧
    u.address first.address = .ok address ∧
    (s.copy (u.bundle / first.source) address t st).outcome = .ok () ∧ u.RefusesPause 2 cause

theorem copyFrom_failsWith (hb : u.PublishesTo base) (hs : s.Worded) (total : Nat)
    (images : List ImageCopy) (w : World σ) :
    FailsWith (u.StopsAtPause s images w.files w.services)
      ((u.copyFrom s total 1 images).exec w).1 := by
  cases images with
  | nil =>
    refine .of_errorIn (errorIn_ok _) ?_
    rintro _ ⟨_, _, _, _, ⟨⟩, -⟩
  | cons first rest =>
    have hfirst := copiesImage_exec hb hs total 1 first w
    rw [copyFrom, Run.exec_bind]
    rcases hx : (u.copyImage s total 1 first).exec w with ⟨answer, w₁⟩
    rw [hx] at hfirst
    cases hfirst with
    | refused hr => exact absurd hr.1.1 (Nat.lt_irrefl 1)
    | failed _ ho =>
      refine .of_errorIn (errorIn_error ⟨_, rfl⟩) ?_
      rintro _ ⟨_, _, _, address, ⟨⟩, ha, hok, -⟩
      obtain rfl := Except.ok.inj ((hb.address _).symm.trans ha)
      cases hok.symm.trans ho
    | copied _ ho =>
      cases rest with
      | nil =>
        refine .of_errorIn (errorIn_ok _) ?_
        rintro _ ⟨_, _, _, _, ⟨⟩, -⟩
      | cons second rest =>
        have hsecond := copiesImage_exec hb hs total 2 second w₁
        dsimp only
        rw [copyFrom, Run.exec_bind]
        rcases hx' : (u.copyImage s total 2 second).exec w₁ with ⟨answer, w₂⟩
        rw [hx'] at hsecond
        -- The pauses are all of one length: one that is not refused before the second image is
        -- not refused before a later one.
        have hnone (hp : ∀ cause, ¬u.RefusesPause 2 cause) (cause : Fault) :
            ¬u.StopsAtPause s (first :: second :: rest) w.files w.services cause := by
          rintro ⟨_, _, _, _, -, -, -, hr⟩
          exact hp cause hr
        cases hsecond with
        | @refused cause hr =>
          refine .fault fun other => ⟨?_, ?_⟩
          · rintro ⟨_, _, _, _, -, -, -, hr'⟩
            exact Except.error.inj (hr'.2.symm.trans hr.2)
          · rintro rfl
            exact ⟨first, second, rest, _, rfl, hb.address _, ho, hr⟩
        | failed hp => exact .of_errorIn (errorIn_error ⟨_, rfl⟩) (hnone hp)
        | copied hp =>
          have hlater : ∀ number cause, ¬u.RefusesPause number cause :=
            fun number cause hr => hp cause ⟨⟨Nat.one_lt_two, hr.1.2⟩, hr.2⟩
          exact .of_errorIn (failsIn_copyFrom hb hs hlater total 3 rest w₂) (hnone hp)

/-- **Images are published**, or the run words why not, unless a pause is refused. -/
theorem copyImages_failsWith (hb : u.PublishesTo base) (hs : s.Worded) (m : Manifest)
    (w : World σ) : FailsWith (u.StopsAtPause s m.images w.files w.services)
      ((u.copyImages s m).exec w).1 := by
  unfold copyImages
  rw [hb.1, Value.text?]
  dsimp only
  rw [Run.exec_bind, Run.exec_note]
  exact copyFrom_failsWith hb hs m.images.length m.images (w.noting .info _)

/-! ## The steps before the store -/

/-- **Unpacking has a fault** if the extraction has it, or else the manifest. -/
theorem unpack_failsWith (u : Uploader) (w : World σ) :
    FailsWith (fun cause => (extractFrom w.files u.archive u.scratch).2 = .error (.fault cause) ∨
        (extractFrom w.files u.archive u.scratch).2 = .ok () ∧
          Manifest.ofFile (extractFrom w.files u.archive u.scratch).1 (u.bundle / manifestName) =
            .error (.fault cause)) (u.unpack.exec w).1 := by
  rw [unpack_answer]
  rcases hx : (extractFrom w.files u.archive u.scratch).2 with e | _
  · rcases extractFrom_errorIn _ _ _ e hx with ⟨cause, rfl⟩ | ⟨cause, rfl⟩
    · exact .of_errorIn (errorIn_error ⟨_, rfl⟩) (by simp)
    · exact .fault fun other => by simp [eq_comm]
  · dsimp only
    rcases hm : Manifest.ofFile (extractFrom w.files u.archive u.scratch).1
      (u.bundle / manifestName) with e | m
    · rcases Manifest.ofFile_errorIn _ _ e hm with ⟨cause, rfl⟩ | ⟨cause, rfl⟩
      · exact .of_errorIn (errorIn_error ⟨_, rfl⟩) (by simp)
      · exact .fault fun other => by simp [eq_comm]
    · exact .of_errorIn (errorIn_ok _) (by simp)

/-- The faults before the store: of the extraction, of the manifest that was extracted, and of the
first pause between images. -/
inductive FaultyBefore (u : Uploader) (s : ImageService σ) (w : World σ) : Fault → Prop where
  | unpacking {cause : Fault}
    (h : (extractFrom w.files u.archive u.scratch).2 = .error (.fault cause)) :
    FaultyBefore u s w cause
  | manifest {cause : Fault} (hx : (extractFrom w.files u.archive u.scratch).2 = .ok ())
    (h : Manifest.ofFile (extractFrom w.files u.archive u.scratch).1 (u.bundle / manifestName) =
      .error (.fault cause)) : FaultyBefore u s w cause
  | pause {m : Manifest} {metadata : MetadataImage} {cause : Fault}
    (hr : u.Ready w.files m metadata) (h : u.StopsAtPause s m.images
      (extractFrom w.files u.archive u.scratch).1 w.services cause) : FaultyBefore u s w cause

/-- **Before the store** a run words its failure, unless it has one of these faults. -/
theorem prepare_failsWith (hb : u.PublishesTo base) (hs : s.Worded) (w : World σ) :
    FailsWith (u.FaultyBefore s w) ((u.prepare s).exec w).1 := by
  have hunpack := u.unpack_failsWith w
  rcases (u.prepares_exec s w).ready with
    ⟨m, metadata, w₁, hr, hu, hprep⟩ | ⟨hnot, answer, e, w₁, hu, hprep, hanswer⟩
  · have hfiles := unpack_files u w
    have hservices := keeps_unpack (I := fun w' => w'.services = w.services) (fun _ _ _ h => h)
      (fun _ _ h => h) u w rfl
    rw [hu] at hfiles hservices
    rw [hprep]
    refine ((copyImages_failsWith hb hs m w₁).map _).congr fun cause => ?_
    rw [hfiles, hservices]
    refine ⟨.pause hr, fun hfaulty => ?_⟩
    cases hfaulty with
    | unpacking h => cases hr.unpacked.symm.trans h
    | manifest _ h => cases hr.reads.1.symm.trans h
    | pause hr' h =>
      obtain rfl := Except.ok.inj (hr'.unpack_eq.symm.trans hr.unpack_eq)
      exact h
  · rw [hu] at hunpack
    rw [hprep]
    have hbefore (cause : Fault) : u.FaultyBefore s w cause ↔ answer = .error (.fault cause) := by
      rw [hunpack.fault_iff]
      constructor
      · rintro (h | ⟨hx, h⟩ | ⟨hr, -⟩)
        · exact .inl h
        · exact .inr ⟨hx, h⟩
        · exact absurd hr (hnot _ _)
      · rintro (h | ⟨hx, h⟩)
        · exact .unpacking h
        · exact .manifest hx h
    rcases hanswer with rfl | ⟨m, cause, rfl, rfl⟩
    · exact ⟨fun e' he => hunpack.worded e' (congrArg _ (Except.error.inj he)), fun cause => by
        rw [hbefore, Except.error.injEq, Except.error.injEq]⟩
    · exact .of_errorIn (errorIn_error ⟨_, rfl⟩) fun cause h => nomatch (hbefore cause).1 h

/-! ## Publishing the store -/

theorem failsIn_pushStore (hb : u.PublishesTo base) (hs : s.Worded) (m : Manifest)
    (address : String) (store : Path) :
    Run.FailsIn Failure.IsUpload (u.pushStore s m address store) := by
  intro w
  have hways := u.pushesStore_exec s m address store w
  generalize (u.pushStore s m address store).exec w = r at hways
  cases hways with
  | failed hfail =>
    obtain ⟨cause, rfl⟩ := hs.pushed _ _ _ _ _ hfail
    exact errorIn_error ⟨_, rfl⟩
  | unplaced _ hnone => cases (hb.address _).symm.trans hnone
  | pushed => exact errorIn_ok _

/-- A file that a manifest names has a name. -/
theorem name_of_isFile {t : FileTree} {source : String} (h : t.isFile (u.bundle / source)) :
    (u.bundle / source).name.isEmpty = false := by
  have hbundle : u.bundle.name ≠ "" := by
    rw [bundle_parts, Path.name, List.getLast?_concat]
    decide
  obtain ⟨content, hf⟩ := Option.isSome_iff_exists.1 h
  simpa using Path.name_div hbundle (FileTree.parts_ne_nil_of_file? hf)

/-- The faults of publishing the store: the directory for downloads is not made, or a merge comes to
the lock of the store and this cannot be taken. -/
inductive FaultyStore (u : Uploader) (s : ImageService σ) (address : String) (store : Path)
    (w : World σ) : Fault → Prop where
  | downloads {cause : FileFault} (h : (w.files.ensureDirectory u.downloads).2 = .error cause) :
    FaultyStore u s address store w (.file cause)
  | lock {cause : FileFault} (hmade : (w.files.ensureDirectory u.downloads).2 = .ok ())
    (ho : (u.fetched s address w).outcome = .ok ())
    (hm : NeedsLock (u.fetched s address w).files store (u.downloads / store.name))
    (hl : (u.fetched s address w).files.takeLock store.lock = .error cause) :
    FaultyStore u s address store w (.file cause)

theorem faultyStore_noting {address : String} {store : Path} (w : World σ) (text : String)
    (cause : Fault) : u.FaultyStore s address store (w.noting .info text) cause ↔
      u.FaultyStore s address store w cause := by
  constructor
  · rintro (h | ⟨hmade, ho, hm, hl⟩)
    · exact .downloads h
    · exact .lock hmade ho hm hl
  · rintro (h | ⟨hmade, ho, hm, hl⟩)
    · exact .downloads h
    · exact .lock hmade ho hm hl

/-- **What is published of the store** is fetched and merged, or the run words why not, unless the
step has one of these faults. -/
theorem mergePublished_failsWith (hs : s.Worded) (address : String) {store : Path}
    (hn : store.name.isEmpty = false) (w : World σ) :
    FailsWith (u.FaultyStore s address store w) ((u.mergePublished s address store).exec w).1 := by
  have hne : store.name ≠ "" := by simpa using hn
  have hunfetched (hmade : (w.files.ensureDirectory u.downloads).2 = .ok ()) {e : Failure}
      (ho : (u.fetched s address w).outcome = .error e) (cause : Fault) :
      ¬u.FaultyStore s address store w cause := by
    rintro (h | ⟨-, hok, -⟩)
    · cases hmade.symm.trans h
    · cases ho.symm.trans hok
  have hways := u.mergesPublished_exec s address store w
  generalize (u.mergePublished s address store).exec w = r at hways
  cases hways with
  | unmade hmade =>
    refine .fault fun other => ⟨?_, ?_⟩
    · rintro (h | ⟨hmade', -, -⟩)
      · rw [Except.error.inj (hmade.symm.trans h)]
      · cases hmade.symm.trans hmade'
    · rintro rfl
      exact .downloads hmade
  | failed hmade hfail =>
    obtain ⟨cause, rfl⟩ := hs.pulled _ _ _ _ _ hfail
    exact .of_errorIn (errorIn_error ⟨_, rfl⟩) (hunfetched hmade hfail)
  | absent text hmade ho => exact .of_errorIn (errorIn_ok _) (hunfetched hmade ho)
  | @merged answer w' text hmade ho hm =>
    have hstep := mergeStore_step store (u.downloads / store.name)
      ((u.afterFetch s address w).noting .info text)
    rw [hm] at hstep
    have hfaulty (cause : Fault) :
        u.FaultyStore s address store w cause ↔ answer = .error (.fault cause) := by
      rw [hstep.fault_iff hne]
      constructor
      · rintro (h | ⟨-, -, hm, hl⟩)
        · cases hmade.symm.trans h
        · exact ⟨_, rfl, hm, hl⟩
      · rintro ⟨e, rfl, hm, hl⟩
        exact .lock hmade ho hm hl
    rcases hstep.answer_cases hne with rfl | rfl | ⟨e, rfl⟩ | ⟨e, rfl, -⟩
    · exact .of_errorIn (errorIn_ok _) fun cause h => nomatch (hfaulty cause).1 h
    · exact .of_errorIn (errorIn_ok _) fun cause h => nomatch (hfaulty cause).1 h
    · exact .of_errorIn (errorIn_error ⟨_, rfl⟩) fun cause h => nomatch (hfaulty cause).1 h
    · exact .fault fun other => by
        rw [hfaulty, Except.error.injEq, Failure.fault.injEq, eq_comm]

/-- **The store is published**, or the run words why not, unless the step has one of these
faults. -/
theorem publishMetadata_failsWith (hb : u.PublishesTo base) (hs : s.Worded) (m : Manifest)
    {metadata : MetadataImage} (hn : (u.bundle / metadata.source).name.isEmpty = false)
    (w : World σ) :
    FailsWith (u.FaultyStore s (Address.join base metadata.address) (u.bundle / metadata.source) w)
      ((u.publishMetadata s m metadata).exec w).1 := by
  have hmerge (text : String) : FailsWith (u.FaultyStore s (Address.join base metadata.address)
      (u.bundle / metadata.source) w) _ :=
    (mergePublished_failsWith hs (Address.join base metadata.address) hn
      (w.noting .info text)).congr (faultyStore_noting w text)
  have hways := u.publishesStore_exec s m metadata w
  generalize (u.publishMetadata s m metadata).exec w = r at hways
  cases hways with
  | unplaced hnone => cases (hb.address _).symm.trans hnone
  | unmerged text ha hfail =>
    obtain rfl := Except.ok.inj ((hb.address _).symm.trans ha)
    have hfailed := hmerge text
    rw [hfail] at hfailed
    exact hfailed.of_error
  | @merged address w' text ha hok =>
    obtain rfl := Except.ok.inj ((hb.address _).symm.trans ha)
    have hmerged := hmerge text
    rw [hok] at hmerged
    exact .of_errorIn (failsIn_pushStore hb hs m _ _ w') hmerged.not_of_ok

/-! ## Whole runs -/

/-- The world in which the steps of a run begin. -/
def begun (u : Uploader) (w : World σ) : World σ :=
  { w with files := w.files.place u.scratch .directory }

/-- The faults of a run: those before its store, and those of publishing the store. -/
inductive Faulty (u : Uploader) (s : ImageService σ) (w : World σ) : Fault → Prop where
  | before {cause : Fault} (h : u.FaultyBefore s (u.begun w) cause) : Faulty u s w cause
  | store {m : Manifest} {metadata : MetadataImage} {w' : World σ} {address : String}
    {cause : Fault} (hp : (u.prepare s).exec (u.begun w) = (.ok (m, metadata), w'))
    (ha : u.address metadata.address = .ok address)
    (h : u.FaultyStore s address (u.bundle / metadata.source) w' cause) : Faulty u s w cause

theorem run_failsWith (hb : u.PublishesTo base) (hs : s.Worded) (w : World σ) :
    FailsWith (u.Faulty s w) ((u.run s).exec w).1 := by
  have hanswer : ((u.run s).exec w).1 =
      ((u.prepare s >>= fun x => u.publishMetadata s x.1 x.2).exec (u.begun w)).1 := rfl
  have hprep := prepare_failsWith hb hs (u.begun w)
  rw [hanswer, Run.exec_bind]
  rcases hp : (u.prepare s).exec (u.begun w) with ⟨e | ⟨m, metadata⟩, w'⟩
  · rw [hp] at hprep
    refine hprep.of_error.congr fun cause => ⟨.before, fun hfaulty => ?_⟩
    cases hfaulty with
    | before h => exact h
    | store hp' => cases (Prod.mk.inj (hp.symm.trans hp')).1
  · rw [hp] at hprep
    have hfile := (prepare_reads hp).2 metadata.source (by simp [sources])
    refine (publishMetadata_failsWith hb hs m (name_of_isFile hfile) w').congr fun cause =>
      ⟨.store hp (hb.address _), fun hfaulty => ?_⟩
    cases hfaulty with
    | before h => exact absurd h (hprep.not_of_ok cause)
    | store hp' ha h =>
      obtain ⟨hanswer, rfl⟩ := Prod.mk.inj (hp.symm.trans hp')
      obtain ⟨rfl, rfl⟩ := Prod.mk.inj (Except.ok.inj hanswer)
      obtain rfl := Except.ok.inj ((hb.address _).symm.trans ha)
      exact h

end Uploader

theorem ImageService.worded_void : ImageService.void.Worded where
  copied _ _ _ _ := errorIn_ok _
  pushed _ _ _ _ := errorIn_ok _
  pulled _ _ _ _ := errorIn_error ⟨_, rfl⟩

end PluginCatalog
