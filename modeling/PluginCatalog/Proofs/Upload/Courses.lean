import PluginCatalog.Proofs.Upload.Exchanges
import PluginCatalog.Proofs.Upload.Pacing

/-!
# Courses of a run

Each step of a run that calls services can go in a few ways, and to each way belong the calls that
are made in it and its end: `Copied` for the images, `Fetched` for what is published of the store
already, `Published` for the store, and `Course` for the whole run. That there are no other ways is
said by `exec_copyFrom`, `exec_mergePublished`, `exec_publishMetadata` and `exec_run_course`.
-/

namespace PluginCatalog

variable {σ : Type}

/-! ## Merges -/

/-- What merging stores in files answers. -/
def mergeAnswer (t : FileTree) (present incoming : Path) : Except Failure Bool :=
  ((mergeStore present incoming).exec (⟨t, [], ()⟩ : World Unit)).1

/-- A merge answers by the files that it meets. -/
theorem exec_mergeStore_answer (w : World σ) (present incoming : Path) :
    ((mergeStore present incoming).exec w).1 = mergeAnswer w.files present incoming := by
  have hR : Alike fun (w : World σ) (w' : World Unit) => w.files = w'.files :=
    ⟨fun h => h, fun _ _ => rfl, fun _ h => h⟩
  exact (mergeStore_relates hR present incoming w ⟨w.files, [], ()⟩ rfl).1

/-- A run goes on after a call that succeeded, if what it fetched was then merged into the store,
and after one that found nothing to fetch. -/
def Made.Passes (x : Made) (store : Path) : Prop :=
  match x.call with
  | .pull _ directory => (∃ message, x.outcome = .error (.image (.absent message))) ∨
      x.outcome = .ok () ∧ ∃ answer, mergeAnswer x.files store (directory / store.name) = .ok answer
  | _ => x.outcome = .ok ()

namespace Uploader

variable (u : Uploader) (base : String)

/-! ## Addresses -/

/-- The destination of a bundle is a repository with this name. -/
def PublishesTo : Prop := u.destination = .text base ∧ base.isEmpty = false

variable {u base}

theorem PublishesTo.address (h : u.PublishesTo base) (relative : String) :
    u.address relative = .ok (Address.join base relative) := by
  obtain ⟨hd, hne⟩ := h
  simp [Uploader.address, hd, Address.join?, hne]

/-- Without a repository there are no addresses. -/
theorem address_error (h : ∀ base, ¬u.PublishesTo base) (relative : String) :
    ∃ e, u.address relative = .error e := by
  unfold Uploader.address
  split
  next base hd =>
    have hempty : base.isEmpty = true := by simpa [PublishesTo, hd] using h base
    exact ⟨_, by rw [Address.join?, if_pos hempty]⟩
  · exact ⟨_, rfl⟩
  · exact ⟨_, rfl⟩

variable (u base)

/-- The call for an image. -/
def copyOf (image : ImageCopy) : Call :=
  .copy (u.bundle / image.source) (Address.join base image.address)

/-- The call that fetches what is published of a store. -/
def pullOf (metadata : MetadataImage) : Call :=
  .pull (Address.join base metadata.address) u.downloads

/-- The call that publishes a store. -/
def pushOf (metadata : MetadataImage) : Call :=
  .push (Address.join base metadata.address) [u.bundle / metadata.source]

/-! ## Images -/

/-- The pause before the image of a number is refused. -/
def RefusesPause (number : Nat) (cause : Fault) : Prop :=
  (1 < number ∧ 0 < u.delay) ∧ u.sleep u.delay = .error cause

/-- How the failure of an image is worded. -/
def copyFailed (number total : Nat) (address : String) : Failure → Failure
  | .image cause => .upload (.notCopied number total address cause)
  | failure => failure

/-- The calls of a run for images, of which the first has the given number among `total`, and how
they end: each is made only after the one before it has succeeded, and after its pause. -/
inductive Copied (total : Nat) : Nat → List ImageCopy → List Made → Except Failure Unit → Prop where
  | done (number : Nat) : Copied total number [] [] (.ok ())
  | refused {number : Nat} {image : ImageCopy} {rest : List ImageCopy} {cause : Fault}
    (hr : u.RefusesPause number cause) :
    Copied total number (image :: rest) [] (.error (.fault cause))
  | failed {number : Nat} {image : ImageCopy} {rest : List ImageCopy} {x : Made} {e : Failure}
    (hc : x.call = u.copyOf base image) (ho : x.outcome = .error e) :
    Copied total number (image :: rest) [x]
      (.error (copyFailed number total (Address.join base image.address) e))
  | next {number : Nat} {image : ImageCopy} {rest : List ImageCopy} {x : Made} {made : List Made}
    {answer : Except Failure Unit} (hc : x.call = u.copyOf base image) (ho : x.outcome = .ok ())
    (h : Copied total (number + 1) rest made answer) :
    Copied total number (image :: rest) (x :: made) answer

variable {u base} {s : ImageService σ}

/-- **A pause** is refused, or it is not and is over. -/
theorem exec_pause (number : Nat) (w : World σ) :
    (∃ cause, u.RefusesPause number cause ∧
        (u.pause number).exec w = (.error (.fault cause), w)) ∨
      (∀ cause, ¬u.RefusesPause number cause) ∧ (u.pause number).exec w = (.ok (), { w with
        journal := w.journal ++ if number > 1 && u.delay > 0 then [.sleep u.delay] else [] }) := by
  unfold pause
  split
  next hp =>
    rw [Run.exec_bind, Run.exec_ofExcept]
    cases hs : u.sleep u.delay with
    | error cause => exact .inl ⟨cause, ⟨by simpa using hp, hs⟩, rfl⟩
    | ok =>
      refine .inr ⟨?_, rfl⟩
      rintro cause ⟨-, hr⟩
      cases hs.symm.trans hr
  next hp =>
    rw [Run.exec_pure, List.append_nil]
    exact .inr ⟨fun _ hr => hp (by simpa using hr.1), rfl⟩

/-- **One image**: its pause is refused, or its call is made after the pause, and its failure is
worded. -/
theorem exec_copyImage (hb : u.PublishesTo base) (total : Nat) {number : Nat} (image : ImageCopy)
    {w : World (σ × List Made)} (hn : number = w.services.2.length + 1) :
    (∃ cause, u.RefusesPause number cause ∧
        (u.copyImage s.recorded total number image).exec w = (.error (.fault cause), w)) ∨
      ∃ x w', (u.copyImage s.recorded total number image).exec w =
        (x.outcome.mapError (copyFailed number total (Address.join base image.address)), w') ∧
          x.call = u.copyOf base image ∧ Adds u.delay w [x] w' := by
  unfold copyImage
  rw [Run.exec_bind]
  rcases exec_pause (u := u) number w with ⟨cause, hr, hpause⟩ | ⟨-, hpause⟩
  · rw [hpause]
    exact .inl ⟨cause, hr, rfl⟩
  rw [hpause]
  dsimp only
  rw [Run.exec_bind, Run.exec_ofExcept, hb.address]
  dsimp only
  rw [Run.exec_bind, Run.exec_note]
  dsimp only
  rw [Run.exec_bind]
  obtain ⟨x, w', hexec, hcall, hcalled⟩ := s.exec_copyImage_recorded (World.noting { w with
      journal := w.journal ++ if number > 1 && u.delay > 0 then [.sleep u.delay] else [] } .info
    s!"[{number}/{total}] uploading image '{Address.join base image.address}'")
    (u.bundle / image.source) (Address.join base image.address)
  rw [hexec]
  have hadds : Adds u.delay w [x] w' := by
    refine ⟨hcalled.recorded, ?_⟩
    rw [hcalled.calls, World.calls_noting, hcall, List.map_singleton, hcall, paced_copy, ← hn,
      World.calls, List.filterMap_append, List.append_assoc]
    congr 2
    split <;> rfl
  refine .inr ?_
  unfold Made.report
  rcases ho : x.outcome with e | _
  · cases e
    case image cause => exact ⟨x, _, by rw [ho]; rfl, hcall, hadds.noting _ _⟩
    all_goals exact ⟨x, w', by rw [ho]; rfl, hcall, hadds⟩
  · exact ⟨x, _, by rw [ho]; rfl, hcall, hadds.noting _ _⟩

/-- **All images** are published in a way that is listed. -/
theorem exec_copyFrom (hb : u.PublishesTo base) (total : Nat) {number : Nat}
    (images : List ImageCopy) {w : World (σ × List Made)} (hn : number = w.services.2.length + 1) :
    ∃ made, Copied u base total number images made
        ((u.copyFrom s.recorded total number images).exec w).1 ∧
      Adds u.delay w made ((u.copyFrom s.recorded total number images).exec w).2 := by
  induction images generalizing number w with
  | nil => exact ⟨[], .done number, .refl _ w⟩
  | cons image rest ih =>
    rw [copyFrom, Run.exec_bind]
    rcases exec_copyImage (s := s) hb total image hn with
      ⟨cause, hr, hexec⟩ | ⟨x, w', hexec, hc, hadds⟩
    · rw [hexec]
      exact ⟨[], .refused hr, .refl _ w⟩
    rw [hexec]
    rcases ho : x.outcome with e | _
    · exact ⟨[x], .failed hc ho, hadds⟩
    · -- The number of an image counts the calls before it, so that it agrees with the record.
      have hn' : number + 1 = w'.services.2.length + 1 := by
        rw [hadds.recorded, List.length_append, hn]
        rfl
      obtain ⟨made, hcopied, hmade⟩ := ih hn'
      exact ⟨x :: made, .next hc ho hcopied, hadds.trans hmade⟩

/-! ## The store -/

variable (u base)

/-- The calls for what is published of a store, and how they end: none if there is no place for
what is fetched, and else one. -/
inductive Fetched (address : String) (store : Path) : List Made → Except Failure Unit → Prop where
  | unmade (cause : FileFault) : Fetched address store [] (.error (.fault (.file cause)))
  | failed {x : Made} {e : Failure} (hc : x.call = .pull address u.downloads)
    (ho : x.outcome = .error e) (ha : ∀ message, e ≠ .image (.absent message)) :
    Fetched address store [x] (.error (pullFailed address e))
  | notMerged {x : Made} {e : Failure} (hc : x.call = .pull address u.downloads)
    (ho : x.outcome = .ok ())
    (hm : mergeAnswer x.files store (u.downloads / store.name) = .error e) :
    Fetched address store [x] (.error (mergeFailed e))
  | passed {x : Made} (hc : x.call = .pull address u.downloads) (hp : x.Passes store) :
    Fetched address store [x] (.ok ())

/-- The calls for a store, and how they end. -/
inductive Published (m : Manifest) (metadata : MetadataImage) :
    List Made → Except Failure String → Prop where
  | unfetched {made : List Made} {e : Failure}
    (h : Fetched u (Address.join base metadata.address) (u.bundle / metadata.source) made
      (.error e)) : Published m metadata made (.error e)
  | failed {made : List Made} {y : Made} {e : Failure}
    (h : Fetched u (Address.join base metadata.address) (u.bundle / metadata.source) made (.ok ()))
    (hc : y.call = u.pushOf base metadata) (ho : y.outcome = .error e) :
    Published m metadata (made ++ [y])
      (.error (pushFailed (Address.join base metadata.address) e))
  | pushed {made : List Made} {y : Made}
    (h : Fetched u (Address.join base metadata.address) (u.bundle / metadata.source) made (.ok ()))
    (hc : y.call = u.pushOf base metadata) (ho : y.outcome = .ok ()) :
    Published m metadata (made ++ [y]) (.ok (Address.join base m.inventoryAddress))

variable {u base}

/-- A merge makes no calls. -/
theorem adds_mergeStore {delay : Float} {w w' : World (σ × List Made)} {made : List Made}
    (h : Adds delay w made w') (present incoming : Path) :
    Adds delay w made ((mergeStore present incoming).exec w').2 :=
  keeps_mergeStore (fun _ _ _ h => h.noting _ _) (fun _ _ h _ => h.withFiles _)
    (fun _ _ h => h.withFiles _) _ w' h

/-- A store is fetched with one call. -/
theorem adds_afterFetch (u : Uploader) (s : ImageService σ) (address : String)
    (w : World (σ × List Made)) :
    ∃ x : Made, x.call = .pull address u.downloads ∧
      x.outcome = (u.fetched s.recorded address w).outcome ∧
      x.files = (u.afterFetch s.recorded address w).files ∧
      Adds u.delay w [x] (u.afterFetch s.recorded address w) := by
  have hcalled := called_after (e := .pull address u.downloads) rfl (u.ensured w)
    (s.pull address u.downloads (u.ensured w).files w.services.1)
  exact ⟨_, rfl, rfl, rfl, ((Adds.refl _ w).withFiles _).trans (hcalled.adds rfl u.delay)⟩

/-- It is pushed with one call. -/
theorem adds_afterPush (delay : Float) (s : ImageService σ) (address : String) (store : Path)
    (w : World (σ × List Made)) :
    ∃ y : Made, y.call = .push address [store] ∧
      y.outcome = (s.recorded.push address [store] w.files w.services).outcome ∧
      Adds delay w [y] (afterPush s.recorded address store w) := by
  have hcalled := called_after (e := .push address [(store, snapshotAt w.files store)]) rfl
    (w.noting .info s!"Uploading image '{address}'")
    (s.push address [store] w.files w.services.1)
  exact ⟨_, rfl, rfl, ((Adds.refl _ w).noting _ _).trans (hcalled.adds rfl delay)⟩

/-- **What is published of a store** is fetched and merged in a way that is listed. -/
theorem exec_mergePublished (address : String) (store : Path) (w : World (σ × List Made)) :
    ∃ made, Fetched u address store made
        ((u.mergePublished s.recorded address store).exec w).1 ∧
      Adds u.delay w made ((u.mergePublished s.recorded address store).exec w).2 := by
  obtain ⟨x, hc, ho, hfiles, hadds⟩ := adds_afterFetch u s address w
  have hways := u.mergesPublished_exec s.recorded address store w
  generalize (u.mergePublished s.recorded address store).exec w = r at hways
  cases hways with
  | unmade => exact ⟨[], .unmade _, (Adds.refl _ w).withFiles _⟩
  | failed _ hfail ha => exact ⟨[x], .failed hc (ho.trans hfail) ha, hadds⟩
  | absent text _ habsent =>
    refine ⟨[x], .passed hc ?_, hadds.noting _ _⟩
    simp only [Made.Passes, hc]
    exact .inl ⟨_, ho.trans habsent⟩
  | @merged answer w' text _ hok hm =>
    have hanswer := exec_mergeStore_answer ((u.afterFetch s.recorded address w).noting .info text)
      store (u.downloads / store.name)
    have hkept := adds_mergeStore (hadds.noting .info text) store (u.downloads / store.name)
    rw [hm, World.files_noting, ← hfiles] at hanswer
    rw [hm] at hkept
    refine ⟨[x], ?_, hkept⟩
    rcases answer with e | answer
    · exact .notMerged hc (ho.trans hok) hanswer.symm
    · refine .passed hc ?_
      simp only [Made.Passes, hc]
      exact .inr ⟨ho.trans hok, answer, hanswer.symm⟩

/-- **The push of the store**: its failure is worded, and else the run gives the address of the
inventory. -/
theorem exec_pushStore_recorded (hb : u.PublishesTo base) (m : Manifest) (address : String)
    (store : Path) (w : World (σ × List Made)) :
    ∃ y w', (u.pushStore s.recorded m address store).exec w =
      (match y.outcome with
        | .ok () => .ok (Address.join base m.inventoryAddress)
        | .error e => .error (pushFailed address e), w') ∧
        y.call = .push address [store] ∧ Adds u.delay w [y] w' := by
  obtain ⟨y, hc, ho, hadds⟩ := adds_afterPush u.delay s address store w
  have hways := u.pushesStore_exec s.recorded m address store w
  generalize (u.pushStore s.recorded m address store).exec w = r at hways
  cases hways with
  | failed hfail => exact ⟨y, _, by rw [ho, hfail], hc, hadds⟩
  | unplaced _ hnone => cases (hb.address _).symm.trans hnone
  | pushed text hok ha =>
    obtain rfl := Except.ok.inj ((hb.address _).symm.trans ha)
    exact ⟨y, _, by rw [ho, hok], hc, hadds.noting _ _⟩

/-- **The store** is published in a way that is listed. -/
theorem exec_publishMetadata (hb : u.PublishesTo base) (m : Manifest) (metadata : MetadataImage)
    (w : World (σ × List Made)) :
    ∃ made, Published u base m metadata made
        ((u.publishMetadata s.recorded m metadata).exec w).1 ∧
      Adds u.delay w made ((u.publishMetadata s.recorded m metadata).exec w).2 := by
  have hmerge (text : String) := exec_mergePublished (s := s) (u := u)
    (Address.join base metadata.address) (u.bundle / metadata.source) (w.noting .info text)
  have hways := u.publishesStore_exec s.recorded m metadata w
  generalize (u.publishMetadata s.recorded m metadata).exec w = r at hways
  cases hways with
  | unplaced hnone => cases (hb.address _).symm.trans hnone
  | unmerged text ha hfail =>
    obtain rfl := Except.ok.inj ((hb.address _).symm.trans ha)
    obtain ⟨made, hfetched, hmade⟩ := hmerge text
    rw [hfail] at hfetched hmade
    exact ⟨made, .unfetched hfetched, ((Adds.refl _ w).noting _ _).trans hmade⟩
  | @merged address w₁ text ha hok =>
    obtain rfl := Except.ok.inj ((hb.address _).symm.trans ha)
    obtain ⟨made, hfetched, hmade⟩ := hmerge text
    rw [hok] at hfetched hmade
    have hfirst : Adds u.delay w made w₁ := ((Adds.refl _ w).noting _ _).trans hmade
    obtain ⟨y, w₂, hexec, hc, hpush⟩ := exec_pushStore_recorded (s := s) hb m
      (Address.join base metadata.address) (u.bundle / metadata.source) w₁
    rw [hexec]
    refine ⟨made ++ [y], ?_, hfirst.trans hpush⟩
    rcases ho : y.outcome with e | _
    · exact .failed hfetched hc ho
    · exact .pushed hfetched hc ho

/-! ## Whole runs -/

/-- The archive was unpacked, the manifest accepted, and all files that it names were found. -/
structure Ready (u : Uploader) (t : FileTree) (m : Manifest) (metadata : MetadataImage) :
    Prop where
  unpacked : (extractFrom t u.archive u.scratch).2 = .ok ()
  reads : u.Reads (extractFrom t u.archive u.scratch).1 m metadata
  found : ∀ source ∈ sources m metadata,
    (extractFrom t u.archive u.scratch).1.isFile (u.bundle / source)

/-- The calls of a run, and how it ends. -/
inductive Course (u : Uploader) (t : FileTree) : List Made → Except Failure String → Prop where
  | unready {e : Failure} (h : ∀ m metadata, ¬u.Ready t m metadata) : Course u t [] (.error e)
  | unplaced {e : Failure} (h : ∀ base, ¬u.PublishesTo base) : Course u t [] (.error e)
  | notCopied {base : String} {m : Manifest} {metadata : MetadataImage} {made : List Made}
    {e : Failure} (hb : u.PublishesTo base) (hr : u.Ready t m metadata)
    (hc : Copied u base m.images.length 1 m.images made (.error e)) : Course u t made (.error e)
  | copied {base : String} {m : Manifest} {metadata : MetadataImage} {made more : List Made}
    {answer : Except Failure String} (hb : u.PublishesTo base) (hr : u.Ready t m metadata)
    (hc : Copied u base m.images.length 1 m.images made (.ok ()))
    (hp : Published u base m metadata more answer) : Course u t (made ++ more) answer

/-! ### Before the first call -/

/-- Unpacking makes no calls. -/
theorem adds_unpack {u : Uploader} {w w₁ : World (σ × List Made)} {answer : Except Failure Manifest}
    (h : u.unpack.exec w = (answer, w₁)) : Adds u.delay w [] w₁ :=
  (keeps_unpack (fun _ _ _ h => h.noting _ _) (fun _ _ h => h.withFiles _) u).of_exec h (.refl _ w)

/-- A run is ready for the manifest that is read from its archive only. -/
theorem Ready.unpack_eq {m : Manifest} {metadata : MetadataImage} {w : World σ}
    (h : u.Ready w.files m metadata) : (u.unpack.exec w).1 = .ok m := by
  rw [unpack_answer, h.unpacked]
  dsimp only
  rw [h.reads.1]
  rfl

/-- **The steps before the store** publish the images if the run is ready for a manifest, and else
fail as unpacking does or with an error of the run. -/
theorem Prepares.ready {s : ImageService σ} {w : World σ}
    {r : Except Failure (Manifest × MetadataImage) × World σ} (h : u.Prepares s w r) :
    (∃ m metadata w₁, u.Ready w.files m metadata ∧ u.unpack.exec w = (.ok m, w₁) ∧
      r = (((u.copyImages s m).exec w₁).1.map fun _ => (m, metadata),
        ((u.copyImages s m).exec w₁).2)) ∨
    (∀ m metadata, ¬u.Ready w.files m metadata) ∧ ∃ answer e w₁,
      u.unpack.exec w = (answer, w₁) ∧ r = (.error e, w₁) ∧
        (answer = .error e ∨ ∃ m cause, answer = .ok m ∧ e = .upload cause) := by
  have hready {m m' : Manifest} {metadata : MetadataImage} {w₁ : World σ}
      (hu : u.unpack.exec w = (.ok m, w₁)) (hr : u.Ready w.files m' metadata) : m' = m := by
    have hm := hr.unpack_eq
    rw [hu] at hm
    exact (Except.ok.inj hm).symm
  cases h with
  | notUnpacked hu =>
    refine .inr ⟨fun m metadata hr => ?_, _, _, _, hu, rfl, .inl rfl⟩
    have hm := hr.unpack_eq
    rw [hu] at hm
    cases hm
  | refused hu hc =>
    refine .inr ⟨fun m metadata hr => ?_, _, _, _, hu, rfl, .inr ⟨_, _, rfl, rfl⟩⟩
    obtain rfl := hready hu hr
    cases hc.symm.trans hr.reads.2
  | missing hu hc hmem hfile =>
    refine .inr ⟨fun m metadata hr => hfile ?_, _, _, _, hu, rfl, .inr ⟨_, _, rfl, rfl⟩⟩
    obtain rfl := hready hu hr
    obtain rfl := Except.ok.inj (hr.reads.2.symm.trans hc)
    exact (unpack_inv hu).2.2 ▸ hr.found _ hmem
  | found hu hc hfound hcopy =>
    obtain ⟨hunpacked, hread, hfiles⟩ := unpack_inv hu
    exact .inl ⟨_, _, _, ⟨hunpacked, ⟨hread, hc⟩, hfiles ▸ hfound⟩, hu, by rw [hcopy]⟩

/-- All images of a manifest are published in a way that is listed. -/
theorem exec_copyImages (hb : u.PublishesTo base) (m : Manifest) {w : World (σ × List Made)}
    (hw : w.services.2 = []) :
    ∃ made, Copied u base m.images.length 1 m.images made
        ((u.copyImages s.recorded m).exec w).1 ∧
      Adds u.delay w made ((u.copyImages s.recorded m).exec w).2 := by
  unfold copyImages
  rw [hb.1, Value.text?]
  dsimp only
  rw [Run.exec_bind, Run.exec_note]
  have hnumber : 1 = (w.noting .info
      s!"Uploading {m.images.length} plugin image(s) to '{base}'").services.2.length + 1 := by
    rw [World.services_noting, hw]
    rfl
  obtain ⟨made, hcopied, hmade⟩ := exec_copyFrom (s := s) hb m.images.length m.images hnumber
  exact ⟨made, hcopied, ((Adds.refl _ w).noting _ _).trans hmade⟩

/-- Without a repository nothing is called for images. -/
theorem adds_copyImages (h : ∀ base, ¬u.PublishesTo base) (m : Manifest)
    (w : World (σ × List Made)) : Adds u.delay w [] ((u.copyImages s.recorded m).exec w).2 := by
  unfold copyImages
  split
  · exact .refl _ w
  · rw [Run.exec_bind, Run.exec_note]
    dsimp only
    cases m.images with
    | nil => exact (Adds.refl _ w).noting _ _
    | cons image rest =>
      obtain ⟨e, he⟩ := address_error h image.address
      have hpause : u.pause 1 = (pure () : Run (σ × List Made) Unit) := rfl
      rw [copyFrom, Run.exec_bind, copyImage, hpause, pure_bind, Run.exec_bind, Run.exec_ofExcept,
        he]
      exact (Adds.refl _ w).noting _ _

/-- Without a repository the store is not published, and nothing is called for it. -/
theorem exec_publishMetadata_error (h : ∀ base, ¬u.PublishesTo base) (m : Manifest)
    (metadata : MetadataImage) (w : World σ) :
    ∃ e, (u.publishMetadata s m metadata).exec w = (.error e, w) := by
  obtain ⟨e, he⟩ := address_error h metadata.address
  exact ⟨e, by rw [publishMetadata, Run.exec_bind, Run.exec_ofExcept, he]⟩

/-! ### The whole run -/

/-- The steps in the directory of a run. -/
theorem exec_steps_course (u : Uploader) (s : ImageService σ) {w : World (σ × List Made)}
    (hw : w.services.2 = []) :
    let steps := u.prepare s.recorded >>= fun (m, metadata) =>
      u.publishMetadata s.recorded m metadata
    ∃ made, Course u w.files made (steps.exec w).1 ∧ Adds u.delay w made (steps.exec w).2 := by
  dsimp only
  rw [Run.exec_bind]
  rcases (u.prepares_exec s.recorded w).ready with
    ⟨m, metadata, w₁, hr, hu, hprep⟩ | ⟨hnot, _, e, w₁, hu, hprep, -⟩
  · have hadds := adds_unpack hu
    have hw₁ : w₁.services.2 = [] := by rw [hadds.recorded, hw]; rfl
    rw [hprep]
    rcases hcopy : (u.copyImages s.recorded m).exec w₁ with ⟨answer, w₂⟩
    by_cases hb : ∃ base, u.PublishesTo base
    · obtain ⟨base, hb⟩ := hb
      obtain ⟨made, hcopied, hmade⟩ := exec_copyImages (s := s) hb m hw₁
      rw [hcopy] at hcopied hmade
      rcases answer with e | _
      · exact ⟨made, .notCopied hb hr hcopied, hadds.trans hmade⟩
      · obtain ⟨more, hpublished, hmore⟩ := exec_publishMetadata (s := s) hb m metadata w₂
        exact ⟨made ++ more, .copied hb hr hcopied hpublished, hadds.trans (hmade.trans hmore)⟩
    · have hb := not_exists.1 hb
      have hcopied := adds_copyImages (s := s) hb m w₁
      rw [hcopy] at hcopied
      rcases answer with e | _
      · exact ⟨[], .unplaced hb, hadds.trans hcopied⟩
      · obtain ⟨e, hpublish⟩ := exec_publishMetadata_error (s := s.recorded) hb m metadata w₂
        dsimp only [Except.map]
        rw [hpublish]
        exact ⟨[], .unplaced hb, hadds.trans hcopied⟩
  · rw [hprep]
    exact ⟨[], .unready hnot, adds_unpack hu⟩

/-- **A run takes one of its courses.** -/
theorem exec_run_course (u : Uploader) (s : ImageService σ) (t : FileTree) (st : σ) :
    Course u (t.place u.scratch .directory) (u.made s t st)
        ((u.run s.recorded).exec ⟨t, [], (st, [])⟩).1 ∧
      ((u.run s.recorded).exec ⟨t, [], (st, [])⟩).2.calls =
        paced u.delay 1 ((u.made s t st).map Made.call) := by
  obtain ⟨made, hcourse, hadds⟩ := u.exec_steps_course s
    (w := ⟨t.place u.scratch .directory, [], (st, [])⟩) rfl
  have hmade : u.made s t st = made := hadds.recorded
  rw [hmade]
  exact ⟨hcourse, hadds.calls⟩

end Uploader

end PluginCatalog
