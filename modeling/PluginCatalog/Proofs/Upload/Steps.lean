import PluginCatalog.Proofs.Execution
import PluginCatalog.Proofs.Store.MergingFiles
import PluginCatalog.Upload

/-!
# What the steps of a run keep

* Unpacking changes files and reports, and does no more (`Uploader.keeps_unpack`); merging at most
  takes a lock and writes a store (`keeps_mergeStore`). `Uploader.unpack_answer` is how unpacking
  ends.
* `Uploader.keeps_copyImages`: while images are published nothing else happens than that they are
  handed over.
* `Uploader.Prepares` are the ways in which the steps before the store can go, with the end of each;
  there are no others (`Uploader.prepares_exec`).
* `Uploader.prepare_reads`: before the store the manifest was read (`Uploader.Reads`), and the files
  that it names were found.
-/

namespace PluginCatalog

variable {σ : Type}

/-! ## Steps without services -/

section Merge

variable {I : World σ → Prop} (hn : ∀ w level text, I w → I (w.noting level text)) {present : Path}
  (hlock : ∀ w t, I w → w.files.takeLock present.lock = .ok t → I { w with files := t })
  (hwrite : ∀ w store, I w → I { w with files := replaceStore w.files present store })

include hn hlock hwrite

theorem keeps_mergeRows (incoming : Path) (rows : List ReadRow) :
    Run.Keeps I (mergeRows present incoming rows) := by
  unfold mergeRows
  refine Run.keeps_bind ?_ fun _ => Run.keeps_bind Run.keeps_files fun t => ?_
  · intro w h
    rw [exec_takeLock]
    cases hl : w.files.takeLock present.lock with
    | error e => exact h
    | ok t => exact hlock w t h hl
  split
  · exact Run.keeps_throw _
  · split
    · exact Run.keeps_throw _
    · exact Run.keeps_throw _
    · exact fun w h => hn _ _ _ (hwrite w _ h)

/-- What a merge keeps, if it is kept when the lock is taken and when a store is written. -/
theorem keeps_mergeStore (incoming : Path) : Run.Keeps I (mergeStore present incoming) := by
  unfold mergeStore
  split
  · exact Run.keeps_throw _
  refine Run.keeps_bind Run.keeps_files fun t => ?_
  split
  · refine Run.keeps_bind ?_ fun store => Run.keeps_bind ?_ fun rows => ?_
    · intro w h
      rw [exec_openStore]
      exact h
    · intro w h
      rw [exec_readStore]
      exact h
    · split
      · exact fun w h => hn w _ _ h
      · exact keeps_mergeRows hn hlock hwrite incoming rows
  · exact Run.keeps_bind (fun w h => hn w _ _ h) fun _ => Run.keeps_pure _

end Merge

section Keeps

variable {I : World σ → Prop} (hn : ∀ w level text, I w → I (w.noting level text))
  (hf : ∀ w t, I w → I { w with files := t })

include hn hf

/-- What does not depend on files and messages is kept when an archive is unpacked. -/
theorem keeps_extract (archive destination : Path) :
    Run.Keeps I (extract archive destination) := by
  unfold extract
  refine Run.keeps_bind Run.keeps_files fun t => ?_
  refine Run.keeps_bind (fun w h => hf w _ h) fun _ => ?_
  split
  · exact Run.keeps_throw _
  · exact fun w h => hn w _ _ h

theorem Uploader.keeps_unpack (u : Uploader) : Run.Keeps I u.unpack := by
  unfold unpack
  refine Run.keeps_bind (fun w h => hn w _ _ h) fun _ => ?_
  refine Run.keeps_bind (Run.keeps_adapt _ (keeps_extract hn hf _ _)) fun _ => ?_
  exact Run.keeps_bind Run.keeps_files fun t => Run.keeps_ofExcept _

end Keeps

/-! ## Steps with services -/

namespace Uploader

variable {I : World σ → Prop} {s : ImageService σ} {u : Uploader}

theorem keeps_checkFiles (u : Uploader) (m : Manifest) (metadata : MetadataImage) :
    Run.Keeps I (u.checkFiles m metadata) := by
  unfold checkFiles
  refine Run.keeps_bind Run.keeps_files fun t => ?_
  dsimp only
  split
  · exact Run.keeps_throw _
  · exact Run.keeps_pure _

section Images

variable (hn : ∀ w level text, I w → I (w.noting level text))
  (hs : ∀ w seconds, I w → I { w with journal := w.journal ++ [.sleep seconds] })

include hn hs

theorem keeps_copyImage {image : ImageCopy}
    (hcall : ∀ address, Run.Keeps I (s.copyImage (u.bundle / image.source) address))
    (total number : Nat) : Run.Keeps I (u.copyImage s total number image) := by
  unfold copyImage
  refine Run.keeps_bind ?_ fun _ => ?_
  · unfold pause
    split
    · exact Run.keeps_bind (Run.keeps_ofExcept _) fun _ w h => hs w _ h
    · exact Run.keeps_pure _
  refine Run.keeps_bind (Run.keeps_ofExcept _) fun address => ?_
  refine Run.keeps_bind (fun w h => hn w _ _ h) fun _ => ?_
  refine Run.keeps_bind (hcall address) fun outcome => ?_
  split
  · exact Run.keeps_bind (fun w h => hn w _ _ h) fun _ => Run.keeps_throw _
  · exact fun w h => hn w _ _ h

theorem keeps_copyFrom {images : List ImageCopy}
    (hcall : ∀ image ∈ images, ∀ address,
      Run.Keeps I (s.copyImage (u.bundle / image.source) address))
    (total number : Nat) : Run.Keeps I (u.copyFrom s total number images) := by
  induction images generalizing number with
  | nil => exact Run.keeps_pure _
  | cons image rest ih =>
    refine Run.keeps_bind ?_ fun _ => ih (fun image h => hcall image (List.mem_cons_of_mem _ h)) _
    exact keeps_copyImage hn hs (hcall image List.mem_cons_self) total number

/-- What a run keeps while it publishes images, if it keeps it while it hands them over. -/
theorem keeps_copyImages {m : Manifest}
    (hcall : ∀ image ∈ m.images, ∀ address,
      Run.Keeps I (s.copyImage (u.bundle / image.source) address)) :
    Run.Keeps I (u.copyImages s m) := by
  unfold copyImages
  split
  · exact Run.keeps_throw _
  · exact Run.keeps_bind (fun w h => hn w _ _ h) fun _ => keeps_copyFrom hn hs hcall _ 1

/-- What a run keeps before its store, if it keeps it while it writes files and hands over images.
-/
theorem keeps_prepare_of_calls (hf : ∀ w t, I w → I { w with files := t })
    (hcall : ∀ image address, Run.Keeps I (s.copyImage image address)) :
    Run.Keeps I (u.prepare s) := by
  unfold prepare
  refine Run.keeps_bind (keeps_unpack hn hf u) fun m => ?_
  split
  · exact Run.keeps_throw _
  refine Run.keeps_bind (keeps_checkFiles u m _) fun _ => ?_
  refine Run.keeps_bind ?_ fun _ => Run.keeps_pure _
  exact keeps_copyImages hn hs fun image _ address => hcall _ address

end Images

/-! ## What a run reads -/

theorem extract_files (archive destination : Path) (w : World σ) :
    ((extract archive destination).exec w).2.files =
      (extractFrom w.files archive destination).1 := by
  unfold extract
  rw [Run.exec_bind, Run.exec_files]
  dsimp only
  rw [Run.exec_bind, Run.exec_setFiles]
  dsimp only
  split <;> rfl

/-- **The files after unpacking.** -/
theorem unpack_files (u : Uploader) (w : World σ) :
    (u.unpack.exec w).2.files = (extractFrom w.files u.archive u.scratch).1 := by
  unfold unpack
  rw [Run.exec_bind, Run.exec_note]
  dsimp only
  have hfiles := extract_files u.archive u.scratch (w.noting .info
    s!"Extracting '{u.archive.text}' for processing...")
  rw [World.files_noting] at hfiles
  rw [Run.exec_bind, Run.exec_adapt]
  rcases hx : (extract u.archive u.scratch).exec (w.noting .info
    s!"Extracting '{u.archive.text}' for processing...") with ⟨e | _, w'⟩
  · rwa [hx] at hfiles
  · rw [hx] at hfiles
    dsimp only [Except.mapError]
    rw [Run.exec_bind, Run.exec_files]
    dsimp only
    rwa [Run.exec_ofExcept]

/-- **What unpacking answers.** -/
theorem unpack_answer (u : Uploader) (w : World σ) :
    (u.unpack.exec w).1 = match (extractFrom w.files u.archive u.scratch).2 with
      | .error e => .error (notUnpacked e)
      | .ok () => (Manifest.ofFile (extractFrom w.files u.archive u.scratch).1
          (u.bundle / manifestName)).mapError manifestRefused := by
  unfold unpack extract
  rw [Run.exec_bind, Run.exec_note]
  dsimp only
  rw [Run.exec_bind, Run.exec_adapt, Run.exec_bind, Run.exec_files]
  dsimp only
  rw [Run.exec_bind, Run.exec_setFiles, World.files_noting]
  dsimp only
  rcases (extractFrom w.files u.archive u.scratch).2 with e | _
  · rfl
  · rw [Run.exec_note]
    dsimp only [Except.mapError]
    rw [Run.exec_bind, Run.exec_files]
    exact congrArg Prod.fst (Run.exec_ofExcept _ _)

/-- A bundle is unpacked if its archive is, and its manifest is read. -/
theorem unpack_inv {m : Manifest} {w w' : World σ} (h : u.unpack.exec w = (.ok m, w')) :
    (extractFrom w.files u.archive u.scratch).2 = .ok () ∧
      Manifest.ofFile (extractFrom w.files u.archive u.scratch).1 (u.bundle / manifestName) =
        .ok m ∧
      w'.files = (extractFrom w.files u.archive u.scratch).1 := by
  have hfiles := unpack_files u w
  have hanswer := unpack_answer u w
  rw [h] at hfiles hanswer
  rcases hx : (extractFrom w.files u.archive u.scratch).2 with e | _
  · rw [hx] at hanswer
    cases hanswer
  · rw [hx] at hanswer
    exact ⟨rfl, eq_ok_of_mapError hanswer.symm, hfiles⟩

/-! ## The steps before the store -/

/-- Whether all files of a manifest are found. -/
theorem exec_checkFiles (u : Uploader) (m : Manifest) (metadata : MetadataImage) (w : World σ) :
    (∀ source ∈ sources m metadata, w.files.isFile (u.bundle / source)) ∧
        (u.checkFiles m metadata).exec w = (.ok (), w) ∨
      ∃ source ∈ sources m metadata, ¬w.files.isFile (u.bundle / source) ∧
        (u.checkFiles m metadata).exec w =
          (.error (.upload (.missingFile source u.archive)), w) := by
  unfold checkFiles
  rw [Run.exec_bind, Run.exec_files]
  dsimp only
  split
  next source hsome =>
    refine .inr ⟨source, List.mem_of_find?_eq_some hsome, ?_, rfl⟩
    simpa using List.find?_some hsome
  next hnone =>
    refine .inl ⟨fun source hsource => ?_, rfl⟩
    simpa using List.find?_eq_none.1 hnone source hsource

/-- The ways in which the steps before the store can go: images are published once the manifest was
read and the files that it names were found. -/
inductive Prepares (u : Uploader) (s : ImageService σ) (w : World σ) :
    Except Failure (Manifest × MetadataImage) × World σ → Prop where
  | notUnpacked {e : Failure} {w' : World σ} (hu : u.unpack.exec w = (.error e, w')) :
    Prepares u s w (.error e, w')
  | refused {m : Manifest} {cause : ManifestError} {w' : World σ}
    (hu : u.unpack.exec w = (.ok m, w')) (hc : m.check = .error cause) :
    Prepares u s w (.error (.upload (.manifest cause)), w')
  | missing {m : Manifest} {metadata : MetadataImage} {w' : World σ} {source : String}
    (hu : u.unpack.exec w = (.ok m, w')) (hc : m.check = .ok metadata)
    (hmem : source ∈ sources m metadata) (hfile : ¬w'.files.isFile (u.bundle / source)) :
    Prepares u s w (.error (.upload (.missingFile source u.archive)), w')
  | found {m : Manifest} {metadata : MetadataImage} {w₁ w₂ : World σ} {answer : Except Failure Unit}
    (hu : u.unpack.exec w = (.ok m, w₁)) (hc : m.check = .ok metadata)
    (hfiles : ∀ source ∈ sources m metadata, w₁.files.isFile (u.bundle / source))
    (hcopy : (u.copyImages s m).exec w₁ = (answer, w₂)) :
    Prepares u s w (answer.map fun _ => (m, metadata), w₂)

/-- **The steps before the store** go in one of the ways. -/
theorem prepares_exec (u : Uploader) (s : ImageService σ) (w : World σ) :
    u.Prepares s w ((u.prepare s).exec w) := by
  unfold prepare
  rw [Run.exec_bind]
  rcases hu : u.unpack.exec w with ⟨e | m, w₁⟩
  · exact .notUnpacked hu
  dsimp only
  rcases hc : m.check with cause | metadata
  · exact .refused hu hc
  dsimp only
  rw [Run.exec_bind]
  rcases exec_checkFiles u m metadata w₁ with ⟨hfiles, hcheck⟩ | ⟨source, hmem, hfile, hcheck⟩
  · rw [hcheck]
    dsimp only
    rw [Run.exec_bind]
    rcases hcopy : (u.copyImages s m).exec w₁ with ⟨e | _, w₂⟩
    · exact .found hu hc hfiles hcopy
    · exact .found hu hc hfiles hcopy
  · rw [hcheck]
    exact .missing hu hc hmem hfile

/-- The manifest of a bundle that was unpacked, with its metadata image, if nothing is missing. -/
def Reads (u : Uploader) (extracted : FileTree) (m : Manifest) (metadata : MetadataImage) : Prop :=
  Manifest.ofFile extracted (u.bundle / manifestName) = .ok m ∧ m.check = .ok metadata

/-- The steps before the store of a run that comes to it. -/
theorem prepare_inv {m : Manifest} {metadata : MetadataImage} {w w' : World σ}
    (h : (u.prepare s).exec w = (.ok (m, metadata), w')) :
    ∃ w₁, u.unpack.exec w = (.ok m, w₁) ∧ m.check = .ok metadata ∧
      (∀ source ∈ sources m metadata, w₁.files.isFile (u.bundle / source)) ∧
      (u.copyImages s m).exec w₁ = (.ok (), w') := by
  have hways := u.prepares_exec s w
  generalize hr : (u.prepare s).exec w = r at hways
  rw [h] at hr
  cases hways with
  | notUnpacked => cases hr
  | refused => cases hr
  | missing => cases hr
  | @found m' metadata' w₁ w₂ answer hunpack hcheck hfile hcopy =>
    obtain ⟨hanswer, rfl⟩ := Prod.mk.inj hr
    cases answer with
    | error e => cases hanswer
    | ok =>
      obtain ⟨rfl, rfl⟩ := Prod.mk.inj (Except.ok.inj hanswer)
      exact ⟨w₁, hunpack, hcheck, hfile, hcopy⟩

/-- **A run that comes to its store** has read its manifest, and found the files that it names. -/
theorem prepare_reads {m : Manifest} {metadata : MetadataImage} {w w' : World σ}
    (h : (u.prepare s).exec w = (.ok (m, metadata), w')) :
    u.Reads (extractFrom w.files u.archive u.scratch).1 m metadata ∧ ∀ source ∈ sources m metadata,
      (extractFrom w.files u.archive u.scratch).1.isFile (u.bundle / source) := by
  obtain ⟨w₁, hunpack, hcheck, hfile, -⟩ := prepare_inv h
  obtain ⟨-, hread, hfiles⟩ := unpack_inv hunpack
  exact ⟨⟨hread, hcheck⟩, hfiles ▸ hfile⟩

end Uploader

end PluginCatalog
