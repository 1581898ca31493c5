import PluginCatalog.Proofs.Upload.Courses

/-!
# The order of calls

* `Uploader.plan` are the calls of a run that succeeds: the images in the order of the manifest,
  then the store is fetched and published at its address. `Uploader.InOrder` says of the calls of a
  run that they are the first ones of these, and how the run ends.
* `Uploader.run_calls`: each run keeps to this order, and pauses before each image but the first. It
  makes calls only for a bundle that is ready.
-/

namespace PluginCatalog

variable {σ : Type}

namespace Uploader

/-- The calls of a run that succeeds, in their order. -/
def plan (u : Uploader) (base : String) (m : Manifest) (metadata : MetadataImage) : List Call :=
  m.images.map (u.copyOf base) ++ [u.pullOf base metadata, u.pushOf base metadata]

/-- The calls of a run, each with its end, and the answer of the run. -/
structure InOrder (u : Uploader) (base : String) (m : Manifest) (metadata : MetadataImage)
    (made : List Made) (answer : Except Failure String) : Prop where
  /-- No other calls are made, and none is left out on the way. -/
  planned : made.map Made.call <+: u.plan base m metadata
  /-- A call is made only if the one before it passes. -/
  passed : ∀ x ∈ made.dropLast, x.Passes (u.bundle / metadata.source)
  /-- The run gives the address of the inventory exactly if the store was published. -/
  returned : ∀ inventory, answer = .ok inventory ↔
    inventory = Address.join base m.inventoryAddress ∧
      ∃ x ∈ made, x.call = u.pushOf base metadata ∧ x.outcome = .ok ()
  /-- The error of an image that is not published tells its number and its address. -/
  notCopied : ∀ i x image cause, made[i]? = some x → m.images[i]? = some image →
    x.outcome = .error (.image cause) → answer = .error (.upload
      (.notCopied (i + 1) m.images.length (Address.join base image.address) cause))
  /-- A merge that fails ends the run with its error, which is a fault if it is the lock of the
  store that cannot be taken. -/
  notMerged : ∀ x ∈ made, x.call = u.pullOf base metadata → x.outcome = .ok () →
    ∀ e, mergeAnswer x.files (u.bundle / metadata.source)
        (u.downloads / (u.bundle / metadata.source).name) = .error e →
      answer = .error (mergeFailed e)
  /-- A run that fails ends with a call that does not pass, as what was fetched and not merged, or
  before an image, if the pause is refused, or after the images, if there is no place for what is
  fetched. -/
  ended : answer.isOk ∨ (∃ x ∈ made.getLast?, ¬x.Passes (u.bundle / metadata.source)) ∨
    (made.length < m.images.length ∧
      ∃ cause, u.RefusesPause (made.length + 1) cause ∧ answer = .error (.fault cause)) ∨
    made.length = m.images.length ∧ ∃ cause, answer = .error (.fault (.file cause))

/-! ## Images -/

/-- A call for an image passes if it succeeds. -/
theorem passes_copyOf {u : Uploader} {base : String} {image : ImageCopy} {x : Made}
    (h : x.call = u.copyOf base image) (store : Path) : x.Passes store ↔ x.outcome = .ok () := by
  simp only [Made.Passes, h, copyOf]

/-- A call that publishes a store passes if it succeeds. -/
theorem passes_pushOf {u : Uploader} {base : String} {metadata : MetadataImage} {x : Made}
    (h : x.call = u.pushOf base metadata) (store : Path) :
    x.Passes store ↔ x.outcome = .ok () := by
  simp only [Made.Passes, h, pushOf]

namespace Copied

variable {u : Uploader} {base : String} {total number : Nat} {images : List ImageCopy}
  {made : List Made} {answer : Except Failure Unit}

theorem planned (h : Copied u base total number images made answer) :
    made.map Made.call <+: images.map (u.copyOf base) := by
  induction h with
  | done => exact List.prefix_rfl
  | refused => exact List.nil_prefix
  | failed hc => simp [hc]
  | next hc _ _ ih => simpa [hc] using ih

theorem complete (h : Copied u base total number images made answer) (ha : answer = .ok ()) :
    made.map Made.call = images.map (u.copyOf base) ∧ ∀ x ∈ made, x.outcome = .ok () := by
  induction h with
  | done => simp
  | refused => cases ha
  | failed => cases ha
  | next hc ho _ ih =>
    obtain ⟨hcalls, hall⟩ := ih ha
    exact ⟨by rw [List.map_cons, hc, hcalls, List.map_cons], List.forall_mem_cons.2 ⟨ho, hall⟩⟩

theorem passed (h : Copied u base total number images made answer) :
    ∀ x ∈ made.dropLast, x.outcome = .ok () := by
  induction h with
  | done => simp
  | refused => simp
  | failed => simp
  | @next _ _ _ x made _ _ ho _ ih =>
    cases made with
    | nil => simp
    | cons y made => simpa [ho] using ih

theorem notCopied (h : Copied u base total number images made answer) {i : Nat} {x : Made}
    {image : ImageCopy} {e : Failure} (hx : made[i]? = some x) (hi : images[i]? = some image)
    (ho : x.outcome = .error e) :
    answer = .error (copyFailed (number + i) total (Address.join base image.address) e) := by
  induction h generalizing i with
  | done => simp at hx
  | refused => simp at hx
  | failed hc ho' =>
    cases i with
    | zero =>
      simp only [List.getElem?_cons_zero, Option.some.injEq] at hx hi
      subst hx hi
      rw [← Except.error.inj (ho'.symm.trans ho), Nat.add_zero]
    | succ i => simp at hx
  | next hc ho' _ ih =>
    cases i with
    | zero =>
      simp only [List.getElem?_cons_zero, Option.some.injEq] at hx
      subst hx
      cases ho'.symm.trans ho
    | succ i =>
      simp only [List.getElem?_cons_succ] at hx hi
      rw [ih hx hi]
      congr 2
      omega

/-- Images that are not all published end with a call that failed, or before an image, as its pause
was refused. -/
theorem ended (h : Copied u base total number images made answer) (ha : answer ≠ .ok ()) :
    (∃ x ∈ made.getLast?, x.outcome ≠ .ok ()) ∨ made.length < images.length ∧
      ∃ cause, u.RefusesPause (number + made.length) cause ∧ answer = .error (.fault cause) := by
  induction h with
  | done => exact absurd rfl ha
  | refused hr => exact .inr ⟨by simp, _, hr, rfl⟩
  | @failed _ _ _ x _ _ ho => exact .inl ⟨x, rfl, ho ▸ nofun⟩
  | @next number _ _ x made _ _ _ _ ih =>
    rcases ih ha with ⟨y, hy, hlast⟩ | ⟨hlt, cause, hr, hanswer⟩
    · refine .inl ⟨y, ?_, hlast⟩
      cases made with
      | nil => cases hy
      | cons => exact hy
    · have hnumber : number + (x :: made).length = number + 1 + made.length := by
        rw [List.length_cons]
        omega
      exact .inr ⟨Nat.succ_lt_succ hlt, cause, hnumber ▸ hr, hanswer⟩

end Copied

/-! ## The store -/

namespace Fetched

variable {u : Uploader} {address : String} {store : Path} {made : List Made}

theorem of_ok (h : Fetched u address store made (.ok ())) :
    ∃ x, made = [x] ∧ x.call = .pull address u.downloads ∧ x.Passes store := by
  cases h with
  | passed hc hp => exact ⟨_, rfl, hc, hp⟩

theorem of_error {e : Failure} (h : Fetched u address store made (.error e)) :
    (made = [] ∧ ∃ cause, e = .fault (.file cause)) ∨
      ∃ x, made = [x] ∧ x.call = .pull address u.downloads ∧ ¬x.Passes store := by
  cases h with
  | unmade cause => exact .inl ⟨rfl, cause, rfl⟩
  | failed hc ho ha =>
    refine .inr ⟨_, rfl, hc, ?_⟩
    simp [Made.Passes, hc, ho, ha]
  | notMerged hc ho hm =>
    refine .inr ⟨_, rfl, hc, ?_⟩
    simp [Made.Passes, hc, ho, hm]

end Fetched

namespace Published

variable {u : Uploader} {base : String} {m : Manifest} {metadata : MetadataImage}
  {made : List Made} {answer : Except Failure String}

theorem planned (h : Published u base m metadata made answer) :
    made.map Made.call <+: [u.pullOf base metadata, u.pushOf base metadata] := by
  cases h with
  | unfetched h =>
    rcases h.of_error with ⟨rfl, -⟩ | ⟨x, rfl, hx, -⟩
    · exact List.nil_prefix
    · simp [hx, pullOf]
  | failed h hc =>
    obtain ⟨x, rfl, hx, -⟩ := h.of_ok
    simp [hx, hc, pullOf]
  | pushed h hc =>
    obtain ⟨x, rfl, hx, -⟩ := h.of_ok
    simp [hx, hc, pullOf]

theorem passed (h : Published u base m metadata made answer) :
    ∀ x ∈ made.dropLast, x.Passes (u.bundle / metadata.source) := by
  cases h with
  | unfetched h => rcases h.of_error with ⟨rfl, -⟩ | ⟨x, rfl, -, -⟩ <;> simp
  | failed h =>
    obtain ⟨x, rfl, -, hp⟩ := h.of_ok
    simpa using hp
  | pushed h =>
    obtain ⟨x, rfl, -, hp⟩ := h.of_ok
    simpa using hp

theorem returned (h : Published u base m metadata made answer) (inventory : String) :
    answer = .ok inventory ↔ inventory = Address.join base m.inventoryAddress ∧
      ∃ x ∈ made, x.call = u.pushOf base metadata ∧ x.outcome = .ok () := by
  cases h with
  | unfetched h =>
    rcases h.of_error with ⟨rfl, -⟩ | ⟨x, rfl, hx, -⟩
    · simp
    · simp [hx, pushOf]
  | failed h hc ho =>
    obtain ⟨x, rfl, hx, -⟩ := h.of_ok
    simp [hx, ho, pushOf]
  | pushed h hc ho =>
    obtain ⟨x, rfl, hx, -⟩ := h.of_ok
    simp [hc, ho, eq_comm]

/-- What was fetched is the last call, if it was not merged. -/
theorem notMerged (h : Published u base m metadata made answer) {x : Made} (hx : x ∈ made)
    (hc : x.call = u.pullOf base metadata) (ho : x.outcome = .ok ()) {e : Failure}
    (hm : mergeAnswer x.files (u.bundle / metadata.source)
      (u.downloads / (u.bundle / metadata.source).name) = .error e) :
    answer = .error (mergeFailed e) := by
  have hnot : ¬x.Passes (u.bundle / metadata.source) := by
    simp [Made.Passes, hc, pullOf, ho, hm]
  have hlast {made : List Made} {y : Made}
      (h : Fetched u (Address.join base metadata.address) (u.bundle / metadata.source) made
        (.ok ())) (hy : y.call = u.pushOf base metadata) : x ∉ made ++ [y] := by
    obtain ⟨z, rfl, -, hp⟩ := h.of_ok
    intro hx
    obtain rfl | rfl : x = z ∨ x = y := by simpa using hx
    · exact hnot hp
    · cases hc.symm.trans hy
  cases h with
  | failed h hy => exact absurd hx (hlast h hy)
  | pushed h hy => exact absurd hx (hlast h hy)
  | unfetched h =>
    cases h with
    | unmade => cases hx
    | failed _ ho' =>
      obtain rfl := List.mem_singleton.1 hx
      cases ho.symm.trans ho'
    | notMerged _ _ hm' =>
      obtain rfl := List.mem_singleton.1 hx
      rw [Except.error.inj (hm.symm.trans hm')]

theorem ended (h : Published u base m metadata made answer) :
    answer.isOk ∨ (∃ x ∈ made.getLast?, ¬x.Passes (u.bundle / metadata.source)) ∨
      made = [] ∧ ∃ cause, answer = .error (.fault (.file cause)) := by
  cases h with
  | unfetched h =>
    rcases h.of_error with ⟨rfl, cause, rfl⟩ | ⟨x, rfl, -, hp⟩
    · exact .inr (.inr ⟨rfl, cause, rfl⟩)
    · exact .inr (.inl ⟨x, rfl, hp⟩)
  | @failed made y e h hc ho =>
    refine .inr (.inl ⟨y, by simp, ?_⟩)
    rw [passes_pushOf hc, ho]
    exact nofun
  | pushed => exact .inl rfl

end Published

/-! ## Runs -/

section InOrder

variable {u : Uploader} {base : String} {m : Manifest} {metadata : MetadataImage}
  {made more : List Made}

/-- A call for an image is not one for the store. -/
theorem copyOf_ne_pushOf (image : ImageCopy) : u.copyOf base image ≠ u.pushOf base metadata := nofun

/-- The calls of a run that ends with its images. -/
theorem inOrder_of_notCopied {e : Failure}
    (h : Copied u base m.images.length 1 m.images made (.error e)) :
    u.InOrder base m metadata made (.error e) where
  planned := h.planned.trans (List.prefix_append _ _)
  passed x hx := by
    obtain ⟨image, -, hc⟩ := List.mem_map.1
      (h.planned.subset (List.mem_map_of_mem ((List.dropLast_sublist _).subset hx)))
    exact (passes_copyOf hc.symm _).2 (h.passed x hx)
  returned inventory := by
    refine ⟨nofun, fun ⟨_, x, hx, hpush, _⟩ => ?_⟩
    obtain ⟨image, -, hc⟩ := List.mem_map.1 (h.planned.subset (List.mem_map_of_mem hx))
    exact absurd (hc.trans hpush) (copyOf_ne_pushOf image)
  notCopied i x image cause hx hi ho := by
    rw [Except.error.inj (h.notCopied hx hi ho), Nat.add_comm]
    rfl
  notMerged x hx hpull := by
    obtain ⟨image, -, hc⟩ := List.mem_map.1 (h.planned.subset (List.mem_map_of_mem hx))
    exact absurd (hc.trans hpull) nofun
  ended := by
    rcases h.ended nofun with ⟨x, hx, ho⟩ | ⟨hlt, cause, hr, he⟩
    · obtain ⟨image, -, hc⟩ := List.mem_map.1
        (h.planned.subset (List.mem_map_of_mem (List.mem_of_getLast? hx)))
      exact .inr (.inl ⟨x, hx, mt (passes_copyOf hc.symm _).1 ho⟩)
    · rw [Nat.add_comm] at hr
      exact .inr (.inr (.inl ⟨hlt, cause, hr, congrArg _ (Except.error.inj he)⟩))

/-- The calls of a run that comes to its store. -/
theorem inOrder_of_copied {answer : Except Failure String}
    (h : Copied u base m.images.length 1 m.images made (.ok ()))
    (hp : Published u base m metadata more answer) :
    u.InOrder base m metadata (made ++ more) answer := by
  obtain ⟨hcalls, hall⟩ := h.complete rfl
  have hlength : made.length = m.images.length := by
    simpa using congrArg List.length hcalls
  have hcopy : ∀ x ∈ made, ∃ image, x.call = u.copyOf base image := fun x hx => by
    obtain ⟨image, -, hc⟩ := List.mem_map.1 (hcalls ▸ List.mem_map_of_mem hx)
    exact ⟨image, hc.symm⟩
  have hpasses : ∀ x ∈ made, x.Passes (u.bundle / metadata.source) := fun x hx => by
    obtain ⟨image, hc⟩ := hcopy x hx
    exact (passes_copyOf hc _).2 (hall x hx)
  refine ⟨?_, ?_, fun inventory => ?_, fun i x image cause hx hi ho => ?_,
    fun x hx hpull ho e hm => ?_, ?_⟩
  · rw [List.map_append, hcalls]
    exact (List.prefix_append_right_inj _).2 hp.planned
  · intro x hx
    rw [List.dropLast_append] at hx
    split at hx
    · exact hpasses x ((List.dropLast_sublist _).subset hx)
    · rcases List.mem_append.1 hx with hx | hx
      · exact hpasses x hx
      · exact hp.passed x hx
  · rw [hp.returned]
    refine and_congr_right fun _ => ⟨?_, ?_⟩
    · rintro ⟨x, hx, hpush⟩
      exact ⟨x, List.mem_append_right _ hx, hpush⟩
    · rintro ⟨x, hx, hpush, ho⟩
      rcases List.mem_append.1 hx with hx | hx
      · obtain ⟨image, hc⟩ := hcopy x hx
        exact absurd (hc.symm.trans hpush) (copyOf_ne_pushOf image)
      · exact ⟨x, hx, hpush, ho⟩
  · have hlt : i < made.length := hlength ▸ (List.getElem?_eq_some_iff.1 hi).1
    rw [List.getElem?_append_left hlt] at hx
    cases (hall x (List.mem_of_getElem? hx)).symm.trans ho
  · rcases List.mem_append.1 hx with hx | hx
    · obtain ⟨image, hc⟩ := hcopy x hx
      exact absurd (hc.symm.trans hpull) nofun
    · exact hp.notMerged hx hpull ho hm
  · rcases hp.ended with hok | ⟨x, hx, hnot⟩ | ⟨rfl, hfault⟩
    · exact .inl hok
    · rw [Option.mem_def] at hx
      exact .inr (.inl ⟨x, by rw [List.getLast?_append, hx]; rfl, hnot⟩)
    · exact .inr (.inr (.inr ⟨by simpa using hlength, hfault⟩))

end InOrder

/-- **The order of the calls of a run**: it pauses before each image but the first, and keeps to its
plan if its bundle is ready and there is a repository. Else it makes no calls and fails. -/
theorem run_calls (u : Uploader) (s : ImageService σ) (t : FileTree) (st : σ) :
    let r := (u.run s).exec ⟨t, [], st⟩
    let made := u.made s t st
    r.2.calls = paced u.delay 1 (made.map Made.call) ∧
      ((∃ base m metadata, u.PublishesTo base ∧
          u.Ready (t.place u.scratch .directory) m metadata ∧
          u.InOrder base m metadata made r.1) ∨
        (¬∃ base m metadata, u.PublishesTo base ∧
            u.Ready (t.place u.scratch .directory) m metadata) ∧
          made = [] ∧ ∃ e, r.1 = .error e) := by
  dsimp only
  obtain ⟨hanswer, hcalls⟩ := u.exec_run_recorded s t st
  obtain ⟨hcourse, hpaced⟩ := u.exec_run_course s t st
  rw [← hanswer, ← hcalls]
  refine ⟨hpaced, ?_⟩
  generalize ((u.run s.recorded).exec ⟨t, [], (st, [])⟩).1 = answer at hcourse ⊢
  generalize u.made s t st = made at hcourse ⊢
  cases hcourse with
  | unready h => exact .inr ⟨fun ⟨_, m, metadata, _, hr⟩ => h m metadata hr, rfl, _, rfl⟩
  | unplaced h => exact .inr ⟨fun ⟨base, _, _, hb, _⟩ => h base hb, rfl, _, rfl⟩
  | notCopied hb hr hc => exact .inl ⟨_, _, _, hb, hr, inOrder_of_notCopied hc⟩
  | copied hb hr hc hp => exact .inl ⟨_, _, _, hb, hr, inOrder_of_copied hc hp⟩

end Uploader

end PluginCatalog
