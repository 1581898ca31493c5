import PluginCatalog.Proofs.Upload.Registry

/-!
# What a run publishes

* `Uploader.mergePublished_inv`: what is published is not there, or was fetched and merged;
  `Uploader.mergePublished_ok`: the builds of a bundle's store after the merge are its own
  and those that were fetched under its own file name.
* `Uploader.publishMetadata_error`, `Uploader.publishMetadata_ok`: a registry holds afterwards what
  it held before, or the merged store in addition.
-/

namespace PluginCatalog.Uploader

variable {σ : Type} {s : ImageService σ} {u : Uploader}

/-- The merge of what is published goes on only if something was fetched, or nothing is there. -/
def FetchedOrAbsent (outcome : Except Failure Unit) : Prop :=
  outcome = .ok () ∨ ∃ message, outcome = .error (.image (.absent message))

/-- How merging what is published succeeds: nothing is published and no file changes, or a merge of
what was fetched does not fail. -/
theorem mergePublished_inv {address : String} {store : Path} {w w' : World σ}
    (h : (u.mergePublished s address store).exec w = (.ok (), w')) :
    ((∃ message, (u.fetched s address w).outcome = .error (.image (.absent message))) ∧
        w'.files = (u.fetched s address w).files) ∨
      (u.fetched s address w).outcome = .ok () ∧ ∃ answer w₁,
        w₁.files = (u.fetched s address w).files ∧
          (mergeStore store (u.downloads / store.name)).exec w₁ = (.ok answer, w') := by
  have hways := u.mergesPublished_exec s address store w
  generalize hr : (u.mergePublished s address store).exec w = r at hways
  rw [h] at hr
  cases hways with
  | unmade => cases hr
  | failed => cases hr
  | absent text _ ho =>
    obtain ⟨-, rfl⟩ := Prod.mk.inj hr
    exact .inl ⟨⟨_, ho⟩, rfl⟩
  | @merged answer w' text _ ho hm =>
    obtain ⟨hanswer, rfl⟩ := Prod.mk.inj hr
    cases answer with
    | error e => cases hanswer
    | ok answer => exact .inr ⟨ho, answer, _, rfl, hm⟩

/-- **The builds of a store after what is published was merged into it.** -/
theorem mergePublished_ok {address : String} {store : Path} {w w' : World σ}
    (h : (u.mergePublished s address store).exec w = (.ok (), w')) :
    FetchedOrAbsent (u.fetched s address w).outcome ∧
      ∀ b, b ∈ buildsAt w'.files store ↔ b ∈ buildsAt (u.fetched s address w).files store ∨
        (u.fetched s address w).outcome = .ok () ∧
          b ∈ buildsAt (u.fetched s address w).files (u.downloads / store.name) := by
  rcases mergePublished_inv h with ⟨⟨message, habsent⟩, hfiles⟩ | ⟨hfetched, answer, w₁, hw₁, hexec⟩
  · refine ⟨.inr ⟨message, habsent⟩, fun b => ?_⟩
    rw [hfiles, habsent]
    simp
  · have hstep := mergeStore_step store (u.downloads / store.name) w₁
    rw [hexec, hw₁] at hstep
    refine ⟨.inl hfetched, fun b => ?_⟩
    rw [hstep.mem_buildsAt, hfetched]
    simp

/-! ## Publishing the store -/

/-- Either all addresses below the repository can be made or none. -/
theorem address_ok {relative address : String} (h : u.address relative = .ok address)
    (other : String) : ∃ address', u.address other = .ok address' := by
  unfold Uploader.address at h ⊢
  cases hd : u.destination with
  | text base =>
    by_cases hb : base.isEmpty
    · simp_all [Address.join?]
    · refine ⟨Address.join base other, ?_⟩
      simp_all [Address.join?]
  | bytes bytes => cases bytes <;> simp_all
  | _ => simp_all

variable {held : σ → String → Option Holding}

/-- Publishing a store changes what is held exactly if it succeeds. -/
theorem exec_pushStore (hs : Registry s held) {m : Manifest} {relative address : String}
    (ha : u.address relative = .ok address) {store : Path} {w w' : World σ}
    {r : Except Failure String} (h : (u.pushStore s m address store).exec w = (r, w')) :
    (r.isOk ∧ held w'.services = Function.update (held w.services) address
      (some ⟨store.name, rowsAt? w.files store⟩)) ∨
    (¬r.isOk ∧ held w'.services = held w.services) := by
  obtain ⟨inventory, hinventory⟩ := address_ok ha m.inventoryAddress
  have hways := u.pushesStore_exec s m address store w
  rw [h] at hways
  cases hways with
  | failed ho => exact .inr ⟨Bool.false_ne_true, hs.refused _ _ _ _ _ ho⟩
  | unplaced _ hnone => cases hinventory.symm.trans hnone
  | pushed text ho => exact .inl ⟨rfl, hs.pushed _ _ _ _ ho⟩

/-- **What is held after the store was published**: the store, with the builds that it has after
the merge. -/
theorem publishMetadata_ok (hs : Registry s held) {m : Manifest} {metadata : MetadataImage}
    {w w' : World σ} {inventory : String}
    (h : (u.publishMetadata s m metadata).exec w = (.ok inventory, w')) :
    ∃ address t, u.address metadata.address = .ok address ∧
      held w'.services = Function.update (held w.services) address
        (some ⟨(u.bundle / metadata.source).name, rowsAt? t (u.bundle / metadata.source)⟩) ∧
      FetchedOrAbsent (u.fetched s address w).outcome ∧
      ∀ b, b ∈ buildsAt t (u.bundle / metadata.source) ↔
        b ∈ buildsAt (u.fetched s address w).files (u.bundle / metadata.source) ∨
          (u.fetched s address w).outcome = .ok () ∧ b ∈ buildsAt (u.fetched s address w).files
            (u.downloads / (u.bundle / metadata.source).name) := by
  have hways := u.publishesStore_exec s m metadata w
  generalize hr : (u.publishMetadata s m metadata).exec w = r at hways
  rw [h] at hr
  cases hways with
  | unplaced => cases hr
  | unmerged => cases hr
  | @merged address w₁ text haddress hmerge =>
    have hkept := (keeps_mergePublished hs u (held w.services) address _).of_exec hmerge rfl
    obtain ⟨hfetched, hbuilds⟩ := mergePublished_ok hmerge
    refine ⟨address, w₁.files, haddress, ?_, hfetched, hbuilds⟩
    rcases exec_pushStore hs haddress hr.symm with ⟨-, hpush⟩ | ⟨hok, -⟩
    · rw [hpush, hkept]
    · exact absurd rfl hok

/-- A run that fails at the store changes nothing that is held. -/
theorem publishMetadata_error (hs : Registry s held) {m : Manifest} {metadata : MetadataImage}
    {w w' : World σ} {e : Failure}
    (h : (u.publishMetadata s m metadata).exec w = (.error e, w')) :
    held w'.services = held w.services := by
  have hways := u.publishesStore_exec s m metadata w
  generalize hr : (u.publishMetadata s m metadata).exec w = r at hways
  rw [h] at hr
  have hmerge (address : String) :=
    keeps_mergePublished hs u (held w.services) address (u.bundle / metadata.source)
  cases hways with
  | unplaced =>
    obtain ⟨-, rfl⟩ := Prod.mk.inj hr
    rfl
  | unmerged text _ hfail =>
    obtain ⟨-, rfl⟩ := Prod.mk.inj hr
    exact (hmerge _).of_exec hfail rfl
  | merged text haddress hok =>
    rcases exec_pushStore hs haddress hr.symm with ⟨hpushed, -⟩ | ⟨-, hpush⟩
    · cases hpushed
    · rw [hpush]
      exact (hmerge _).of_exec hok rfl

end PluginCatalog.Uploader
