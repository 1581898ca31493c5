import PluginCatalog.Proofs.Upload.Publishing
import PluginCatalog.Proofs.Upload.Shelf

/-!
# Histories of publishing

Bundles are published one after the other to a registry, from any files, and each run may fail at
any step. A run replaces what is held at the address of its store by a store of its own, into which
it has merged what it fetched from there *under the name of its own file*.

* `Attempt.losesNothing_iff`: a run loses none of the builds that are held exactly if what it
  publishes covers them (`Attempt.Covers`).
* `history_losesNothing_iff` is the same for all runs of a history; they lose nothing if all stores
  have the file name of what is held (`Attempt.SameName`). If no run loses anything, what was held
  at first is held at last (`builds_subset_stateAfter`).
* `publishMetadata_drops`: a store with another file name drops what was held.
-/

namespace PluginCatalog

variable {σ : Type}

/-- A run: its bundle and destination, the files and the state of the service that it meets. -/
structure Attempt (σ : Type) where
  uploader : Uploader
  files : FileTree
  services : σ

namespace Attempt

/-- The outcome of a run, and the world after it. -/
def result (s : ImageService σ) (x : Attempt σ) : Except Failure String × World σ :=
  (x.uploader.run s).exec ⟨x.files, [], x.services⟩

/-- A run comes to the step in which it publishes its store. -/
def Prepared (s : ImageService σ) (x : Attempt σ) (m : Manifest) (metadata : MetadataImage)
    (w : World σ) : Prop :=
  (x.uploader.prepare s).exec ⟨x.files.place x.uploader.scratch .directory, [], x.services⟩ =
    (.ok (m, metadata), w)

variable (s : ImageService σ) (held : σ → String → Option Holding) (address : String)

/-- After a run the builds are held that were held before. -/
def LosesNothing (x : Attempt σ) : Prop :=
  Holding.builds (held x.services address) ⊆ Holding.builds (held (x.result s).2.services address)

/-- If a run succeeds, its own store has the builds that are held, or they were fetched into a file
of the name of its own store. -/
def Covers (x : Attempt σ) : Prop :=
  ∀ m metadata w, x.Prepared s m metadata w → x.uploader.address metadata.address = .ok address →
    (x.result s).1.isOk → ∀ b ∈ Holding.builds (held x.services address),
      let store := x.uploader.bundle / metadata.source
      let fetched := x.uploader.fetched s address w
      b ∈ buildsAt fetched.files store ∨
        fetched.outcome = .ok () ∧ b ∈ buildsAt fetched.files (x.uploader.downloads / store.name)

/-- The store of a run has the file name of what is held. -/
def SameName (x : Attempt σ) : Prop :=
  ∀ m metadata w, x.Prepared s m metadata w → x.uploader.address metadata.address = .ok address →
    ∀ h, held x.services address = some h → h.name = (x.uploader.bundle / metadata.source).name

variable {s held address}

variable {x : Attempt σ}

/-- The steps of a run before its store. -/
theorem result_of_prepared {m : Manifest} {metadata : MetadataImage} {w : World σ}
    (h : x.Prepared s m metadata w) :
    (x.result s).1 = ((x.uploader.publishMetadata s m metadata).exec w).1 ∧
      (x.result s).2.services = ((x.uploader.publishMetadata s m metadata).exec w).2.services := by
  unfold Prepared at h
  unfold result Uploader.run
  rw [Run.exec_within, Run.exec_bind, h]
  exact ⟨rfl, rfl⟩

/-- A run that does not come to its store ends with the failure that keeps it from it. -/
theorem result_of_not_prepared {e : Failure} {w : World σ}
    (h : (x.uploader.prepare s).exec ⟨x.files.place x.uploader.scratch .directory, [], x.services⟩ =
      (.error e, w)) :
    (x.result s).1 = .error e ∧ (x.result s).2.services = w.services := by
  unfold result Uploader.run
  rw [Run.exec_within, Run.exec_bind, h]
  exact ⟨rfl, rfl⟩

/-- What is held when a run comes to its store. -/
theorem Prepared.held_eq (hs : Registry s held) {m : Manifest} {metadata : MetadataImage}
    {w : World σ} (h : x.Prepared s m metadata w) : held w.services = held x.services :=
  (Uploader.keeps_prepare hs x.uploader (held x.services)).of_exec h rfl

/-- **A run that fails changes nothing that is held.** -/
theorem result_error (hs : Registry s held) (h : ¬(x.result s).1.isOk) :
    held (x.result s).2.services = held x.services := by
  rcases hp : (x.uploader.prepare s).exec
    ⟨x.files.place x.uploader.scratch .directory, [], x.services⟩ with ⟨e | ⟨m, metadata⟩, w⟩
  · rw [(result_of_not_prepared hp).2]
    exact (Uploader.keeps_prepare hs x.uploader (held x.services)).of_exec hp rfl
  · have hprep : x.Prepared s m metadata w := hp
    obtain ⟨hanswer, hservices⟩ := result_of_prepared hprep
    rw [hservices, ← hprep.held_eq hs]
    rcases hpub : (x.uploader.publishMetadata s m metadata).exec w with ⟨e | inventory, w'⟩
    · exact Uploader.publishMetadata_error hs hpub
    · rw [hanswer, hpub] at h
      exact absurd rfl h

/-- **What a run that succeeds publishes**: its own builds, and those that it fetched under the name
of its own store. Nothing else changes. -/
theorem result_ok (hs : Registry s held) (h : (x.result s).1.isOk) :
    ∃ m metadata w published name, x.Prepared s m metadata w ∧
      x.uploader.address metadata.address = .ok published ∧ ∃ rows,
      held (x.result s).2.services =
        Function.update (held x.services) published (some ⟨name, rows⟩) ∧
      Uploader.FetchedOrAbsent (x.uploader.fetched s published w).outcome ∧
      ∀ b, b ∈ Holding.builds (some ⟨name, rows⟩) ↔
        let store := x.uploader.bundle / metadata.source
        let fetched := x.uploader.fetched s published w
        b ∈ buildsAt fetched.files store ∨
          fetched.outcome = .ok () ∧
            b ∈ buildsAt fetched.files (x.uploader.downloads / store.name) := by
  rcases hp : (x.uploader.prepare s).exec
    ⟨x.files.place x.uploader.scratch .directory, [], x.services⟩ with ⟨e | ⟨m, metadata⟩, w⟩
  · rw [(result_of_not_prepared hp).1] at h
    cases h
  · have hprep : x.Prepared s m metadata w := hp
    obtain ⟨hanswer, hservices⟩ := result_of_prepared hprep
    rcases hpub : (x.uploader.publishMetadata s m metadata).exec w with ⟨e | inventory, w'⟩
    · rw [hanswer, hpub] at h
      cases h
    · obtain ⟨published, t, hpublished, hheld, hfetched, hbuilds⟩ :=
        Uploader.publishMetadata_ok hs hpub
      rw [hservices, hpub]
      rw [hprep.held_eq hs] at hheld
      exact ⟨m, metadata, w, published, _, hprep, hpublished, _, hheld, hfetched, hbuilds⟩

/-- A run comes to its store in one way at most. -/
theorem Prepared.unique {m m' : Manifest} {metadata metadata' : MetadataImage} {w w' : World σ}
    (h : x.Prepared s m metadata w) (h' : x.Prepared s m' metadata' w') :
    m' = m ∧ metadata' = metadata ∧ w' = w := by
  obtain ⟨hp, rfl⟩ := Prod.mk.inj (h'.symm.trans h)
  obtain ⟨rfl, rfl⟩ := Prod.mk.inj (Except.ok.inj hp)
  exact ⟨rfl, rfl, rfl⟩

/-- **When a run loses nothing.** -/
theorem losesNothing_iff (hs : Registry s held) :
    x.LosesNothing s held address ↔ x.Covers s held address := by
  unfold LosesNothing
  by_cases hok : (x.result s).1.isOk
  · obtain ⟨m, metadata, w, published, name, hprep, hpublished, rows, hheld, -, hbuilds⟩ :=
      result_ok hs hok
    rw [hheld]
    by_cases ha : address = published
    · subst ha
      rw [Function.update_self]
      constructor
      · intro hsub m' metadata' w' hprep' _ _ b hb
        obtain ⟨rfl, rfl, rfl⟩ := hprep.unique hprep'
        exact (hbuilds b).1 (hsub hb)
      · intro hcov b hb
        exact (hbuilds b).2 (hcov m metadata w hprep hpublished hok b hb)
    · rw [Function.update_of_ne ha]
      refine ⟨fun _ m' metadata' w' hprep' hpublished' => ?_, fun _ => List.Subset.refl _⟩
      obtain ⟨rfl, rfl, rfl⟩ := hprep.unique hprep'
      exact absurd (Except.ok.inj (hpublished'.symm.trans hpublished)) ha
  · rw [result_error hs hok]
    exact ⟨fun _ m metadata w _ _ h => absurd h hok, fun _ => List.Subset.refl _⟩

/-- A run whose store has the name of what is held covers it, if the service does not deny what
is held. -/
theorem covers_of_sameName (hs : Registry s held)
    (hdeny : ∀ directory t st h message, held st address = some h →
      (s.pull address directory t st).outcome ≠ .error (.image (.absent message)))
    (hx : x.SameName s held address) : x.Covers s held address := by
  intro m metadata w hprep haddress hok b hb
  obtain ⟨m', metadata', w', published, name, hprep', hpublished, rows, -, hfetched, -⟩ :=
    result_ok hs hok
  obtain ⟨rfl, rfl, rfl⟩ := hprep.unique hprep'
  obtain rfl : published = address := Except.ok.inj (hpublished.symm.trans haddress)
  rcases hh : held x.services published with _ | h
  · simp [hh, Holding.builds] at hb
  have hw : held w'.services published = some h := by rw [hprep.held_eq hs, hh]
  rcases hfetched with hfetched | ⟨message, habsent⟩
  · obtain ⟨h', hh', hrows⟩ := hs.pulled _ _ _ _ hfetched
    obtain rfl : h' = h := Option.some.inj (hh'.symm.trans hw)
    refine .inr ⟨hfetched, ?_⟩
    rw [← hx m' metadata' w' hprep haddress h' hh]
    unfold buildsAt Uploader.fetched
    rw [hrows]
    rw [hh] at hb
    exact hb
  · exact absurd habsent (hdeny _ _ _ h message hw)

end Attempt

/-! ## Histories -/

/-- The runs of a history: each of them meets the state in which the one before left the service. -/
def history (s : ImageService σ) : σ → List (Uploader × FileTree) → List (Attempt σ)
  | _, [] => []
  | st, (u, t) :: rest =>
    let x : Attempt σ := ⟨u, t, st⟩
    x :: history s (x.result s).2.services rest

/-- The state of the service after a history. -/
def stateAfter (s : ImageService σ) (st : σ) (runs : List (Uploader × FileTree)) : σ :=
  runs.foldl (fun st (u, t) => ((⟨u, t, st⟩ : Attempt σ).result s).2.services) st

variable {s : ImageService σ} {held : σ → String → Option Holding} {address : String}

/-- If no run loses anything, what was held at first is held at last. -/
theorem builds_subset_stateAfter {st : σ} {runs : List (Uploader × FileTree)}
    (h : ∀ x ∈ history s st runs, x.LosesNothing s held address) :
    Holding.builds (held st address) ⊆ Holding.builds (held (stateAfter s st runs) address) := by
  induction runs generalizing st with
  | nil => exact List.Subset.refl _
  | cons run rest ih =>
    obtain ⟨u, t⟩ := run
    have hfirst := h ⟨u, t, st⟩ List.mem_cons_self
    exact List.Subset.trans hfirst (ih fun x hx => h x (List.mem_cons_of_mem _ hx))

/-- **When publishing loses nothing**: exactly if what each run publishes covers what is held. Then
what was held at first is held at last. -/
theorem history_losesNothing_iff (hs : Registry s held) (st : σ)
    (runs : List (Uploader × FileTree)) (address : String) :
    ((∀ x ∈ history s st runs, x.LosesNothing s held address) ↔
      ∀ x ∈ history s st runs, x.Covers s held address) ∧
    ((∀ x ∈ history s st runs, x.Covers s held address) →
      Holding.builds (held st address) ⊆
        Holding.builds (held (stateAfter s st runs) address)) ∧
    ((∀ directory t st h message, held st address = some h →
        (s.pull address directory t st).outcome ≠ .error (.image (.absent message))) →
      (∀ x ∈ history s st runs, x.SameName s held address) →
        ∀ x ∈ history s st runs, x.LosesNothing s held address) := by
  have hiff : (∀ x ∈ history s st runs, x.LosesNothing s held address) ↔
      ∀ x ∈ history s st runs, x.Covers s held address :=
    forall₂_congr fun x _ => Attempt.losesNothing_iff hs
  refine ⟨hiff, fun hcov => builds_subset_stateAfter (hiff.2 hcov), fun hdeny hname => ?_⟩
  exact hiff.2 fun x hx => Attempt.covers_of_sameName hs hdeny (hname x hx)

/-- A bundle is published twice to a shelf that holds a store of the same name. -/
theorem history_losesNothing_iff_shelf :
    let u := sampleUploader
    let t := sampleFiles (sampleBundle (sampleStore ["cluster"]))
    let shelf : Shelf := [("r.io/inventory", "s.db", .store (sampleStore ["apps"]))]
    let attempts := history Shelf.service shelf [(u, t), (u, t)]
    Registry Shelf.service Shelf.held ∧
      (∀ directory t st h message, Shelf.held st "r.io/inventory" = some h →
        (Shelf.service.pull "r.io/inventory" directory t st).outcome ≠
          .error (.image (.absent message))) ∧
      (∀ x ∈ attempts, x.SameName Shelf.service Shelf.held "r.io/inventory") ∧
      ((∀ x ∈ attempts, x.LosesNothing Shelf.service Shelf.held "r.io/inventory") ↔
        ∀ x ∈ attempts, x.Covers Shelf.service Shelf.held "r.io/inventory") ∧
      (∀ x ∈ attempts, x.LosesNothing Shelf.service Shelf.held "r.io/inventory") ∧
      Holding.builds (shelf.held "r.io/inventory") ⊆ Holding.builds
        ((stateAfter Shelf.service shelf [(u, t), (u, t)]).held "r.io/inventory") := by
  intro u t shelf attempts
  have hread : Manifest.ofFile (extractFrom (t.place u.scratch .directory) u.archive u.scratch).1
      (u.bundle / Uploader.manifestName) = .ok ⟨"catalog", some ⟨"s.db", "inventory"⟩, []⟩ := by
    decide +kernel
  have hbundle : (u.bundle / "s.db").name = "s.db" := by decide +kernel
  obtain ⟨st, hattempts, hafter⟩ : ∃ st, attempts = [⟨u, t, shelf⟩, ⟨u, t, st⟩] ∧
      (Shelf.held st "r.io/inventory").map Holding.name = some "s.db" :=
    ⟨((⟨u, t, shelf⟩ : Attempt Shelf).result Shelf.service).2.services, rfl, by decide +kernel⟩
  have hnames : ∀ x ∈ attempts, x.uploader = u ∧ x.files = t ∧
      (Shelf.held x.services "r.io/inventory").map Holding.name = some "s.db" := by
    rw [hattempts]
    refine List.forall_mem_cons.2 ⟨⟨rfl, rfl, rfl⟩, ?_⟩
    exact List.forall_mem_cons.2 ⟨⟨rfl, rfl, hafter⟩, nofun⟩
  have hname : ∀ x ∈ attempts, x.SameName Shelf.service Shelf.held "r.io/inventory" := by
    rintro ⟨u', t', st'⟩ hx m metadata w hprep - h hh
    obtain ⟨rfl, rfl, hst⟩ := hnames _ hx
    obtain ⟨⟨hm, hcheck⟩, -⟩ := Uploader.prepare_reads hprep
    obtain rfl := Except.ok.inj (hread.symm.trans hm)
    obtain rfl : ⟨"s.db", "inventory"⟩ = metadata := Except.ok.inj hcheck
    change (Shelf.held st' _).map _ = _ at hst
    rw [hh] at hst
    exact (Option.some.inj hst).trans hbundle.symm
  obtain ⟨hiff, hkept, hloses⟩ := history_losesNothing_iff Shelf.registry shelf [(u, t), (u, t)]
    "r.io/inventory"
  have hdeny := Shelf.not_absent_of_held "r.io/inventory"
  have hnothing := hloses hdeny hname
  exact ⟨Shelf.registry, hdeny, hname, hiff, hnothing, hkept (hiff.1 hnothing)⟩

/-- **A store with another file name drops what was held.** On a shelf with a store `first.db`, a
bundle with a store `second.db` is published: afterwards only its own row is there. -/
theorem publishMetadata_drops :
    let store (name : String) : Content := .store (sampleStore [name])
    let shelf : Shelf := [("r.io/inventory", "first.db", store "apps")]
    let w : World Shelf := ⟨⟨[], [(["tmp"], .directory), (["tmp", "plugin_bundle"], .directory),
      (["tmp", "plugin_bundle", "second.db"], .file 0 (store "cluster"))]⟩, [], shelf⟩
    let m : Manifest := ⟨"catalog", none, []⟩
    let r := (sampleUploader.publishMetadata Shelf.service m ⟨"second.db", "inventory"⟩).exec w
    r.1.isOk ∧
      (Holding.builds (shelf.held "r.io/inventory")).map Build.name = [some "apps"] ∧
      (Holding.builds (r.2.services.held "r.io/inventory")).map Build.name = [some "cluster"] := by
  decide +kernel

end PluginCatalog
