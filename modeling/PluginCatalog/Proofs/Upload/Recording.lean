import PluginCatalog.Proofs.Upload.Steps

/-!
# The calls of a run

* `World.calls` are the pauses and the calls of services that are in a journal; `Made` is a call
  with its end.
* `ImageService.recorded` is a service with the calls that were made of it, and `Uploader.made` are
  those of a run.
* What a merge answers depends on the files only (`mergeStore_relates`), and a run on what a service
  does, not on how it keeps its state (`Uploader.run_relates`).
* `Uploader.exec_run_recorded`: recording the calls of a run changes nothing.
-/

namespace PluginCatalog

variable {σ τ : Type}

/-- What a run asks for: a pause, or a call of a service. -/
inductive Call where
  | sleep (seconds : Float)
  | copy (image : Path) (address : String)
  | pull (address : String) (directory : Path)
  | push (address : String) (files : List Path)

/-- The call that an entry of the journal is about. -/
def Event.call? : Event → Option Call
  | .activity _ => none
  | .sleep seconds => some (.sleep seconds)
  | .copy image address => some (.copy image address)
  | .pull address directory => some (.pull address directory)
  | .push address files => some (.push address (files.map Prod.fst))

/-- The pauses and calls up to now, in their order. -/
def World.calls (w : World σ) : List Call := w.journal.filterMap Event.call?

@[simp] theorem World.calls_noting (w : World σ) (level : Level) (text : String) :
    (w.noting level text).calls = w.calls := by
  simp [World.calls, World.noting, Event.call?]

/-- What a service says while it works is no call. -/
theorem World.calls_after (w : World σ) (e : Event) (r : Reply σ) :
    (w.after e r).calls = w.calls ++ e.call?.toList := by
  have hactivities : (r.activities.map Event.activity).filterMap Event.call? = [] := by
    simp [Event.call?]
  rw [World.calls, World.after, List.filterMap_append, List.filterMap_cons, hactivities]
  cases e.call? <;> rfl

/-! ## Recording -/

/-- A call of a service, how it ended, and the files after it. -/
structure Made where
  call : Call
  outcome : Except Failure Unit
  files : FileTree

/-- The end of a call, as it is recorded. -/
def Reply.made (r : Reply σ) (call : Call) : Made := ⟨call, r.outcome, r.files⟩

/-- The reply of a service that records the call. -/
def Reply.recorded (r : Reply σ) (call : Call) (before : List Made) : Reply (σ × List Made) :=
  ⟨r.files, (r.services, before ++ [r.made call]), r.activities, r.outcome⟩

/-- A service that records the calls which are made of it. -/
def ImageService.recorded (s : ImageService σ) : ImageService (σ × List Made) where
  copy image address t st := (s.copy image address t st.1).recorded (.copy image address) st.2
  push address files t st := (s.push address files t st.1).recorded (.push address files) st.2
  pull address directory t st :=
    (s.pull address directory t st.1).recorded (.pull address directory) st.2

/-- The calls that a run makes, each with its end. -/
def Uploader.made (u : Uploader) (s : ImageService σ) (t : FileTree) (st : σ) : List Made :=
  ((u.run s.recorded).exec ⟨t, [], (st, [])⟩).2.services.2

/-! ## Steps without services -/

section Alike

variable {R : World τ → World σ → Prop} (hR : Alike R)

include hR

theorem openStore_relates (p : Path) : Run.Relates R (openStore p) (openStore p) := by
  intro w w' h
  rw [exec_openStore, exec_openStore, hR.files h]
  exact ⟨rfl, h⟩

theorem readStore_relates (p : Path) : Run.Relates R (readStore p) (readStore p) := by
  intro w w' h
  rw [exec_readStore, exec_readStore, hR.files h]
  exact ⟨rfl, h⟩

theorem takeLock_relates (p : Path) : Run.Relates R (takeLock p) (takeLock p) := by
  unfold takeLock
  refine Run.relates_bind (Run.relates_files hR) fun t => ?_
  split
  · exact Run.relates_throw _
  · exact Run.relates_setFiles hR _

theorem mergeRows_relates (present incoming : Path) (rows : List ReadRow) :
    Run.Relates R (mergeRows present incoming rows) (mergeRows present incoming rows) := by
  unfold mergeRows
  refine Run.relates_bind (takeLock_relates hR present) fun _ => ?_
  refine Run.relates_bind (Run.relates_files hR) fun t => ?_
  split
  · exact Run.relates_throw _
  split
  · exact Run.relates_throw _
  · exact Run.relates_throw _
  · refine Run.relates_bind (Run.relates_files hR) fun t => ?_
    refine Run.relates_bind (Run.relates_setFiles hR _) fun _ => ?_
    exact Run.relates_bind (Run.relates_note hR _ _) fun _ => Run.relates_pure _

/-- **What a merge answers** depends on the files only. -/
theorem mergeStore_relates (present incoming : Path) :
    Run.Relates R (mergeStore present incoming) (mergeStore present incoming) := by
  unfold mergeStore
  split
  · exact Run.relates_throw _
  refine Run.relates_bind (Run.relates_files hR) fun t => ?_
  split
  · refine Run.relates_bind (openStore_relates hR present) fun store => ?_
    refine Run.relates_bind (readStore_relates hR incoming) fun rows => ?_
    split
    · exact Run.relates_bind (Run.relates_note hR _ _) fun _ => Run.relates_pure _
    · exact mergeRows_relates hR present incoming rows
  · exact Run.relates_bind (Run.relates_note hR _ _) fun _ => Run.relates_pure _

theorem extract_relates (archive destination : Path) :
    Run.Relates R (extract archive destination) (extract archive destination) := by
  unfold extract
  refine Run.relates_bind (Run.relates_files hR) fun t => ?_
  refine Run.relates_bind (Run.relates_setFiles hR _) fun _ => ?_
  split
  · exact Run.relates_throw _
  · exact Run.relates_note hR _ _

theorem Uploader.unpack_relates (u : Uploader) : Run.Relates R u.unpack u.unpack := by
  unfold unpack
  refine Run.relates_bind (Run.relates_note hR _ _) fun _ => ?_
  refine Run.relates_bind (Run.relates_adapt _ (extract_relates hR _ _)) fun _ => ?_
  exact Run.relates_bind (Run.relates_files hR) fun t => Run.relates_ofExcept _

theorem Uploader.checkFiles_relates (u : Uploader) (m : Manifest) (metadata : MetadataImage) :
    Run.Relates R (u.checkFiles m metadata) (u.checkFiles m metadata) := by
  unfold checkFiles
  refine Run.relates_bind (Run.relates_files hR) fun t => ?_
  dsimp only
  split
  · exact Run.relates_throw _
  · exact Run.relates_pure _

end Alike

/-! ## States of services -/

/-- The world with another view of the state of the services. -/
def World.view (f : τ → σ) (w : World τ) : World σ := ⟨w.files, w.journal, f w.services⟩

theorem alike_view (f : τ → σ) : Alike fun (w : World τ) (w' : World σ) => w.view f = w' where
  files h := congrArg World.files h
  setFiles t h := congrArg (fun w' : World σ => { w' with files := t }) h
  record es h := congrArg (fun w' : World σ => { w' with journal := w'.journal ++ es }) h

/-- The reply with another view of the state of the service. -/
def Reply.view (f : τ → σ) (r : Reply τ) : Reply σ :=
  ⟨r.files, f r.services, r.activities, r.outcome⟩

namespace ImageService

/-- One service does what another one does, whose state is a view of its own. -/
structure Simulates (s' : ImageService τ) (f : τ → σ) (s : ImageService σ) : Prop where
  copy : ∀ image address t st,
    s.copy image address t (f st) = (s'.copy image address t st).view f
  push : ∀ address files t st, s.push address files t (f st) = (s'.push address files t st).view f
  pull : ∀ address directory t st,
    s.pull address directory t (f st) = (s'.pull address directory t st).view f

theorem recorded_simulates (s : ImageService σ) : s.recorded.Simulates Prod.fst s :=
  ⟨fun _ _ _ _ => rfl, fun _ _ _ _ => rfl, fun _ _ _ _ => rfl⟩

variable {f : τ → σ} {s' : ImageService τ} {s : ImageService σ}

theorem calling_relates (e : Event) {call' : FileTree → τ → Reply τ}
    {call : FileTree → σ → Reply σ} (h : ∀ t st, call t (f st) = (call' t st).view f) :
    Run.Relates (fun w w' => w.view f = w') (calling e call') (calling e call) := by
  rintro w _ rfl
  have hcall : call (w.view f).files (w.view f).services =
      (call' w.files w.services).view f := h w.files w.services
  rw [exec_calling, exec_calling, hcall]
  exact ⟨rfl, rfl⟩

theorem Simulates.pushFiles (h : s'.Simulates f s) (address : String) (files : List Path) :
    Run.Relates (fun w w' => w.view f = w') (s'.pushFiles address files)
      (s.pushFiles address files) :=
  Run.relates_bind (Run.relates_files (alike_view f)) fun _ =>
    calling_relates _ (h.push address files)

end ImageService

/-! ## Runs -/

namespace Uploader

variable {f : τ → σ} {s' : ImageService τ} {s : ImageService σ} (h : s'.Simulates f s)
  (u : Uploader)

include h

theorem copyFrom_relates (total number : Nat) (images : List ImageCopy) :
    Run.Relates (fun w w' => w.view f = w') (u.copyFrom s' total number images)
      (u.copyFrom s total number images) := by
  have hR := alike_view f
  induction images generalizing number with
  | nil => exact Run.relates_pure _
  | cons image rest ih =>
    refine Run.relates_bind ?_ fun _ => ih (number + 1)
    unfold copyImage
    refine Run.relates_bind ?_ fun _ => ?_
    · unfold pause
      split
      · exact Run.relates_bind (Run.relates_ofExcept _) fun _ => Run.relates_record hR _
      · exact Run.relates_pure _
    refine Run.relates_bind (Run.relates_ofExcept _) fun address => ?_
    refine Run.relates_bind (Run.relates_note hR _ _) fun _ => ?_
    refine Run.relates_bind (ImageService.calling_relates _ (h.copy _ address)) fun outcome => ?_
    split
    · exact Run.relates_bind (Run.relates_note hR _ _) fun _ => Run.relates_throw _
    · exact Run.relates_note hR _ _

theorem copyImages_relates (m : Manifest) : Run.Relates (fun w w' => w.view f = w')
    (u.copyImages s' m) (u.copyImages s m) := by
  unfold copyImages
  split
  · exact Run.relates_throw _
  · refine Run.relates_bind (Run.relates_note (alike_view f) _ _) fun _ => ?_
    exact copyFrom_relates h u _ _ _

theorem mergePublished_relates (address : String) (store : Path) :
    Run.Relates (fun w w' => w.view f = w') (u.mergePublished s' address store)
      (u.mergePublished s address store) := by
  have hR := alike_view f
  unfold mergePublished
  refine Run.relates_bind (Run.relates_files hR) fun t => ?_
  dsimp only
  refine Run.relates_bind (Run.relates_setFiles hR _) fun _ => ?_
  refine Run.relates_bind (Run.relates_ofExcept _) fun _ => ?_
  refine Run.relates_bind (ImageService.calling_relates _ (h.pull address u.downloads))
    fun outcome => ?_
  split
  · exact Run.relates_note hR _ _
  · exact Run.relates_throw _
  · refine Run.relates_bind (Run.relates_note hR _ _) fun _ => ?_
    refine Run.relates_bind ?_ fun _ => Run.relates_pure _
    exact Run.relates_adapt _ (mergeStore_relates hR _ _)

theorem pushStore_relates (m : Manifest) (address : String) (store : Path) :
    Run.Relates (fun w w' => w.view f = w') (u.pushStore s' m address store)
      (u.pushStore s m address store) := by
  have hR := alike_view f
  unfold pushStore
  refine Run.relates_bind (Run.relates_note hR _ _) fun _ => ?_
  refine Run.relates_bind (h.pushFiles address [store]) fun outcome => ?_
  split
  · exact Run.relates_throw _
  · refine Run.relates_bind (Run.relates_ofExcept _) fun inventory => ?_
    exact Run.relates_bind (Run.relates_note hR _ _) fun _ => Run.relates_pure _

/-- **A run depends on what a service does**, and not on how it keeps its state. -/
theorem run_relates : Run.Relates (fun w w' => w.view f = w') (u.run s') (u.run s) := by
  have hR := alike_view f
  unfold run
  refine Run.relates_within hR _ (Run.relates_bind ?_ fun prepared => ?_)
  · unfold prepare
    refine Run.relates_bind (u.unpack_relates hR) fun m => ?_
    split
    · exact Run.relates_throw _
    · refine Run.relates_bind (u.checkFiles_relates hR m _) fun _ => ?_
      exact Run.relates_bind (copyImages_relates h u m) fun _ => Run.relates_pure _
  · unfold publishMetadata
    refine Run.relates_bind (Run.relates_ofExcept _) fun address => ?_
    refine Run.relates_bind (Run.relates_note hR _ _) fun _ => ?_
    refine Run.relates_bind (mergePublished_relates h u address _) fun _ => ?_
    exact pushStore_relates h u _ address _

omit h in
/-- Recording the calls changes neither the outcome of a run nor its calls. -/
theorem exec_run_recorded (s : ImageService σ) (t : FileTree) (st : σ) :
    ((u.run s.recorded).exec ⟨t, [], (st, [])⟩).1 = ((u.run s).exec ⟨t, [], st⟩).1 ∧
      ((u.run s.recorded).exec ⟨t, [], (st, [])⟩).2.calls =
        ((u.run s).exec ⟨t, [], st⟩).2.calls := by
  obtain ⟨hanswer, hview⟩ :=
    run_relates s.recorded_simulates u ⟨t, [], (st, [])⟩ ⟨t, [], st⟩ rfl
  exact ⟨hanswer, by rw [← hview]; rfl⟩

end Uploader

end PluginCatalog
