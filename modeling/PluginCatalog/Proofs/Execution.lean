import PluginCatalog.Image.Service

/-!
# Executing runs

* `Run.exec x w` is the outcome of an operation in a world, with the world after it. The equations
  below take a run apart step by step: `exec_bind` for two steps one after the other, and one
  equation for each single step.
* `Run.Keeps I x`: the operation `x` keeps the property `I` of worlds, whether it succeeds or not.
* `Run.FailsIn P x`: if the operation `x` fails, then with a failure of the kind `P`; `ErrorIn P r`
  says so of a result.
* `Run.Relates R x y`: from worlds in relation `R` the operations `x` and `y` come to the same
  answer, and to worlds in that relation.
-/

namespace PluginCatalog

variable {σ τ α β : Type}

/-- The world after a message. -/
def World.noting (w : World σ) (level : Level) (text : String) : World σ :=
  { w with journal := w.journal ++ [.activity (.note level text)] }

@[simp] theorem World.files_noting (w : World σ) (level : Level) (text : String) :
    (w.noting level text).files = w.files := rfl

@[simp] theorem World.services_noting (w : World σ) (level : Level) (text : String) :
    (w.noting level text).services = w.services := rfl

/-! ## Results -/

section Results

variable {ε δ : Type}

theorem eq_ok_of_mapError {r : Except ε α} {f : ε → δ} {a : α} (h : r.mapError f = .ok a) :
    r = .ok a := by
  cases r with
  | error e => cases h
  | ok b => rw [← Except.ok.inj h]

/-- Two steps succeed if both of them do. -/
theorem bind_eq_ok_iff {x : Except ε α} {f : α → Except ε β} {b : β} :
    x >>= f = .ok b ↔ ∃ a, x = .ok a ∧ f a = .ok b := by
  cases x with
  | error e => simp [bind, Except.bind]
  | ok a => simp [bind, Except.bind]

/-- Two steps fail if the first one fails, or the second one after it. -/
theorem bind_eq_error_iff {x : Except ε α} {f : α → Except ε β} {e : ε} :
    x >>= f = .error e ↔ x = .error e ∨ ∃ a, x = .ok a ∧ f a = .error e := by
  cases x with
  | error e' => simp [bind, Except.bind]
  | ok a => simp [bind, Except.bind]

/-- A list of steps that all succeed. -/
theorem mapM_eq_ok {l : List α} {f : α → Except ε β} {g : α → β} (h : ∀ a ∈ l, f a = .ok (g a)) :
    l.mapM f = .ok (l.map g) := by
  induction l with
  | nil => rfl
  | cons a l ih =>
    rw [List.mapM_cons, h a List.mem_cons_self, ih fun b hb => h b (List.mem_cons_of_mem a hb)]
    rfl

/-- A result is no error, or one of a certain kind. -/
def ErrorIn (P : ε → Prop) (r : Except ε α) : Prop := ∀ e, r = .error e → P e

variable {P : ε → Prop} {Q : δ → Prop}

theorem errorIn_ok (a : α) : ErrorIn P (.ok a : Except ε α) := nofun

theorem errorIn_error {e : ε} (h : P e) : ErrorIn P (.error e : Except ε α) := by
  intro e' he
  rwa [← Except.error.inj he]

theorem errorIn_bind {x : Except ε α} {f : α → Except ε β} (hx : ErrorIn P x)
    (hf : ∀ a, ErrorIn P (f a)) : ErrorIn P (x >>= f) := by
  intro e h
  rcases bind_eq_error_iff.1 h with h | ⟨a, -, h⟩
  · exact hx e h
  · exact hf a e h

theorem errorIn_mapError {r : Except ε α} (hr : ErrorIn P r) {f : ε → δ}
    (hf : ∀ e, P e → Q (f e)) : ErrorIn Q (r.mapError f) := by
  cases r with
  | error e => exact errorIn_error (hf e (hr e rfl))
  | ok a => exact errorIn_ok a

theorem errorIn_forM {l : List α} {f : α → Except ε Unit} (h : ∀ a ∈ l, ErrorIn P (f a)) :
    ErrorIn P (l.forM f) := by
  induction l with
  | nil => exact errorIn_ok _
  | cons a l ih =>
    exact errorIn_bind (h a List.mem_cons_self) fun _ => ih fun b hb =>
      h b (List.mem_cons_of_mem a hb)

/-- A list of steps succeeds if all of them do. -/
theorem forM_eq_ok_iff {l : List α} {f : α → Except ε Unit} :
    l.forM f = .ok () ↔ ∀ a ∈ l, f a = .ok () := by
  induction l with
  | nil => exact ⟨fun _ => nofun, fun _ => rfl⟩
  | cons a l ih =>
    have hcons : (a :: l).forM f = (f a >>= fun _ => l.forM f) := rfl
    rw [hcons, bind_eq_ok_iff, List.forall_mem_cons, ih]
    exact ⟨fun ⟨_, h⟩ => h, fun h => ⟨(), h⟩⟩

/-- A list of steps fails at the first one that does. -/
theorem forM_eq_error_iff {l : List α} {f : α → Except ε Unit} {e : ε} :
    l.forM f = .error e ↔ ∃ before a after, l = before ++ a :: after ∧
      (∀ b ∈ before, f b = .ok ()) ∧ f a = .error e := by
  induction l with
  | nil => simp [pure, Except.pure]
  | cons a l ih =>
    have hcons : (a :: l).forM f = (f a >>= fun _ => l.forM f) := rfl
    rw [hcons, bind_eq_error_iff, ih]
    constructor
    · rintro (h | ⟨_, h, before, b, after, rfl, hbefore, hb⟩)
      · exact ⟨[], a, l, rfl, nofun, h⟩
      · exact ⟨a :: before, b, after, rfl, List.forall_mem_cons.2 ⟨h, hbefore⟩, hb⟩
    · rintro ⟨_ | ⟨a', before⟩, b, after, hl, hbefore, hb⟩
      · obtain ⟨rfl, rfl⟩ := List.cons.inj hl
        exact .inl hb
      · obtain ⟨rfl, rfl⟩ := List.cons.inj hl
        obtain ⟨h, hbefore⟩ := List.forall_mem_cons.1 hbefore
        exact .inr ⟨(), h, before, b, after, rfl, hbefore, hb⟩

theorem map_eq_ok_iff {r : Except ε α} {f : α → β} {b : β} :
    r.map f = .ok b ↔ ∃ a, r = .ok a ∧ f a = b := by
  cases r <;> simp [Except.map]

theorem map_eq_error_iff {r : Except ε α} {f : α → β} {e : ε} :
    r.map f = .error e ↔ r = .error e := by
  cases r <;> simp [Except.map]

/-- Steps with results are, without the results, a list of steps. -/
theorem mapM_map_unit (l : List α) (f : α → Except ε β) :
    ((l.mapM f).map fun _ => ()) = l.forM fun a => (f a).map fun _ => () := by
  induction l with
  | nil => rfl
  | cons a l ih =>
    have hcons : ((a :: l).forM fun a => (f a).map fun _ => ()) =
        ((f a).map (fun _ => ()) >>= fun _ => l.forM fun a => (f a).map fun _ => ()) := rfl
    rw [hcons, ← ih, List.mapM_cons]
    cases f a with
    | error e => rfl
    | ok b => cases l.mapM f <;> rfl

/-- Steps with results succeed if all of them do. -/
theorem exists_mapM_eq_ok_iff {l : List α} {f : α → Except ε β} :
    (∃ bs, l.mapM f = .ok bs) ↔ ∀ a ∈ l, ∃ b, f a = .ok b := by
  have hunit := congrArg (· = Except.ok ()) (mapM_map_unit l f)
  simpa only [map_eq_ok_iff, and_true, forM_eq_ok_iff, eq_iff_iff] using hunit

/-- Steps with results fail at the first one that does. -/
theorem mapM_eq_error_iff {l : List α} {f : α → Except ε β} {e : ε} :
    l.mapM f = .error e ↔ ∃ before a after, l = before ++ a :: after ∧
      (∀ b ∈ before, ∃ c, f b = .ok c) ∧ f a = .error e := by
  have hunit := congrArg (· = Except.error e) (mapM_map_unit l f)
  simpa only [map_eq_ok_iff, map_eq_error_iff, and_true, forM_eq_error_iff, eq_iff_iff] using hunit

theorem errorIn_mapM {l : List α} {f : α → Except ε β} (h : ∀ a ∈ l, ErrorIn P (f a)) :
    ErrorIn P (l.mapM f) := by
  induction l with
  | nil => exact errorIn_ok _
  | cons a l ih =>
    rw [List.mapM_cons]
    refine errorIn_bind (h a List.mem_cons_self) fun b => ?_
    exact errorIn_bind (ih fun c hc => h c (List.mem_cons_of_mem a hc)) fun bs => errorIn_ok _

end Results

namespace Run

/-- The outcome of an operation, and the world after it. -/
def exec (x : Run σ α) (w : World σ) : Except Failure α × World σ := x.run.run w

@[simp] theorem exec_pure (a : α) (w : World σ) : (pure a : Run σ α).exec w = (.ok a, w) := rfl

@[simp] theorem exec_throw (e : Failure) (w : World σ) :
    (throw e : Run σ α).exec w = (.error e, w) := rfl

/-- Two steps one after the other: the second one only if the first one succeeds. -/
theorem exec_bind (x : Run σ α) (f : α → Run σ β) (w : World σ) :
    (x >>= f).exec w = match x.exec w with
      | (.ok a, w') => (f a).exec w'
      | (.error e, w') => (.error e, w') := by
  change ExceptT.bindCont f (x.exec w).1 (x.exec w).2 = _
  rcases x.exec w with ⟨_ | _, _⟩ <;> rfl

/-- Two steps succeed if both of them do. -/
theorem exec_bind_ok {x : Run σ α} {f : α → Run σ β} {w w' : World σ} {b : β}
    (h : (x >>= f).exec w = (.ok b, w')) :
    ∃ a w₁, x.exec w = (.ok a, w₁) ∧ (f a).exec w₁ = (.ok b, w') := by
  rw [exec_bind] at h
  rcases hx : x.exec w with ⟨e | a, w₁⟩
  · simp [hx] at h
  · exact ⟨a, w₁, rfl, by simpa [hx] using h⟩

@[simp] theorem exec_map (f : α → β) (x : Run σ α) (w : World σ) :
    (f <$> x).exec w = ((x.exec w).1.map f, (x.exec w).2) := by
  rw [map_eq_pure_bind, exec_bind]
  rcases x.exec w with ⟨_ | _, _⟩ <;> rfl

@[simp] theorem exec_files (w : World σ) : (files : Run σ FileTree).exec w = (.ok w.files, w) := rfl

@[simp] theorem exec_setFiles (t : FileTree) (w : World σ) :
    (setFiles t).exec w = (.ok (), { w with files := t }) := rfl

@[simp] theorem exec_record (es : List Event) (w : World σ) :
    (record es).exec w = (.ok (), { w with journal := w.journal ++ es }) := rfl

@[simp] theorem exec_note (level : Level) (text : String) (w : World σ) :
    (note level text).exec w = (.ok (), w.noting level text) := rfl

@[simp] theorem exec_fault (f : Fault) (w : World σ) :
    (fault f : Run σ α).exec w = (.error (.fault f), w) := rfl

@[simp] theorem exec_storeError (e : StoreError) (w : World σ) :
    (storeError e : Run σ α).exec w = (.error (.store e), w) := rfl

@[simp] theorem exec_ofExcept (r : Except Failure α) (w : World σ) :
    (ofExcept r).exec w = (r, w) := by
  cases r <;> rfl

@[simp] theorem exec_ofStore (r : Except StoreError α) (w : World σ) :
    (ofStore r).exec w = (r.mapError .store, w) := by
  cases r <;> rfl

@[simp] theorem exec_adapt (f : Failure → Failure) (x : Run σ α) (w : World σ) :
    exec (ExceptT.adapt f x) w = ((x.exec w).1.mapError f, (x.exec w).2) := rfl

/-- An operation in a directory that is there for its time only. -/
theorem exec_within (directory : Path) (body : Run σ α) (w : World σ) :
    (within directory body).exec w =
      let r := body.exec { w with files := w.files.place directory .directory }
      (r.1, { r.2 with files := r.2.files.eraseBelow directory.parts }) := rfl

/-! ## What a run keeps -/

/-- An operation keeps a property of worlds, whatever its outcome is. -/
def Keeps (I : World σ → Prop) (x : Run σ α) : Prop := ∀ w, I w → I (x.exec w).2

variable {I : World σ → Prop}

theorem Keeps.of_exec {x : Run σ α} (hx : Keeps I x) {w w' : World σ} {r : Except Failure α}
    (h : x.exec w = (r, w')) (hw : I w) : I w' := by
  have hk := hx w hw
  rwa [h] at hk

theorem keeps_pure (a : α) : Keeps I (pure a : Run σ α) := fun _ h => h

theorem keeps_throw (e : Failure) : Keeps I (throw e : Run σ α) := fun _ h => h

theorem keeps_files : Keeps I (files : Run σ FileTree) := fun _ h => h

theorem keeps_ofExcept (r : Except Failure α) : Keeps I (ofExcept r : Run σ α) := by
  intro w h
  rw [exec_ofExcept]
  exact h

/-- What holds after a step, and is kept by what comes then, holds at the end. -/
theorem after_bind {x : Run σ α} {f : α → Run σ β} {w : World σ} (hx : I (x.exec w).2)
    (hf : ∀ a, Keeps I (f a)) : I ((x >>= f).exec w).2 := by
  rw [exec_bind]
  rcases hr : x.exec w with ⟨e | a, w'⟩
  · rwa [hr] at hx
  · rw [hr] at hx
    exact hf a w' hx

theorem keeps_bind {x : Run σ α} {f : α → Run σ β} (hx : Keeps I x) (hf : ∀ a, Keeps I (f a)) :
    Keeps I (x >>= f) := fun w h => after_bind (hx w h) hf

theorem keeps_adapt (f : Failure → Failure) {x : Run σ α} (hx : Keeps I x) :
    Keeps I (ExceptT.adapt f x) := fun w h => hx w h

/-! ## How a run fails -/

/-- An operation fails, if it does, with a failure of a certain kind. -/
def FailsIn (P : Failure → Prop) (x : Run σ α) : Prop := ∀ w, ErrorIn P (x.exec w).1

variable {P : Failure → Prop}

theorem failsIn_pure (a : α) : FailsIn P (pure a : Run σ α) := fun _ => errorIn_ok a

theorem failsIn_bind {x : Run σ α} {f : α → Run σ β} (hx : FailsIn P x)
    (hf : ∀ a, FailsIn P (f a)) : FailsIn P (x >>= f) := by
  intro w
  rw [exec_bind]
  rcases hr : x.exec w with ⟨e | a, w'⟩
  · exact errorIn_error (hx w e (congrArg Prod.fst hr))
  · exact hf a w'

end Run

/-! ## Related worlds -/

/-- A relation between worlds of the same files that is kept when both change alike. -/
structure Alike (R : World τ → World σ → Prop) : Prop where
  files : ∀ {w w'}, R w w' → w.files = w'.files
  setFiles : ∀ {w w'} (t : FileTree), R w w' → R { w with files := t } { w' with files := t }
  record : ∀ {w w'} (es : List Event), R w w' →
    R { w with journal := w.journal ++ es } { w' with journal := w'.journal ++ es }

/-- From related worlds two operations come to the same answer, and to related worlds. -/
def Run.Relates (R : World τ → World σ → Prop) (x : Run τ α) (y : Run σ α) : Prop :=
  ∀ w w', R w w' → (x.exec w).1 = (y.exec w').1 ∧ R (x.exec w).2 (y.exec w').2

namespace Run

variable {R : World τ → World σ → Prop}

theorem relates_pure (a : α) : Relates R (pure a) (pure a) := fun _ _ h => ⟨rfl, h⟩

theorem relates_throw (e : Failure) : Relates R (throw e : Run τ α) (throw e) :=
  fun _ _ h => ⟨rfl, h⟩

theorem relates_ofExcept (r : Except Failure α) : Relates R (ofExcept r) (ofExcept r) := by
  intro w w' h
  rw [exec_ofExcept, exec_ofExcept]
  exact ⟨rfl, h⟩

theorem relates_bind {x : Run τ α} {y : Run σ α} {x' : α → Run τ β} {y' : α → Run σ β}
    (h : Relates R x y) (h' : ∀ a, Relates R (x' a) (y' a)) :
    Relates R (x >>= x') (y >>= y') := by
  intro w w' hw
  obtain ⟨hanswer, hafter⟩ := h w w' hw
  rw [exec_bind, exec_bind]
  generalize x.exec w = first at hanswer hafter ⊢
  generalize y.exec w' = first' at hanswer hafter ⊢
  obtain ⟨r, w₁⟩ := first
  obtain ⟨r', w₁'⟩ := first'
  obtain rfl : r = r' := hanswer
  cases r with
  | error e => exact ⟨rfl, hafter⟩
  | ok a => exact h' a w₁ w₁' hafter

theorem relates_adapt (g : Failure → Failure) {x : Run τ α} {y : Run σ α}
    (h : Relates R x y) : Relates R (ExceptT.adapt g x) (ExceptT.adapt g y) := by
  intro w w' hw
  obtain ⟨hanswer, hafter⟩ := h w w' hw
  rw [exec_adapt, exec_adapt, hanswer]
  exact ⟨rfl, hafter⟩

variable (hR : Alike R)

include hR

theorem relates_files : Relates R files files := fun _ _ h => ⟨congrArg _ (hR.files h), h⟩

theorem relates_setFiles (t : FileTree) : Relates R (setFiles t) (setFiles t) :=
  fun _ _ h => ⟨rfl, hR.setFiles t h⟩

theorem relates_record (es : List Event) : Relates R (record es) (record es) :=
  fun _ _ h => ⟨rfl, hR.record es h⟩

theorem relates_note (level : Level) (text : String) :
    Relates R (note level text) (note level text) := relates_record hR _

theorem relates_within (directory : Path) {x : Run τ α} {y : Run σ α} (h : Relates R x y) :
    Relates R (within directory x) (within directory y) := by
  intro w w' hw
  rw [exec_within, exec_within, hR.files hw]
  obtain ⟨hanswer, hafter⟩ := h _ _ (hR.setFiles (w'.files.place directory .directory) hw)
  dsimp only
  rw [hR.files hafter]
  exact ⟨hanswer, hR.setFiles _ hafter⟩

end Run

/-! ## Calls of services -/

/-- The world after a call. -/
def World.after (w : World σ) (e : Event) (r : Reply σ) : World σ :=
  ⟨r.files, w.journal ++ e :: r.activities.map .activity, r.services⟩

namespace ImageService

theorem exec_calling (e : Event) (call : FileTree → σ → Reply σ) (w : World σ) :
    (calling e call).exec w =
      (match (call w.files w.services).outcome with
        | .ok () => .ok (.ok ())
        | .error (.image cause) => .ok (.error cause)
        | .error failure => .error failure,
      w.after e (call w.files w.services)) := by
  change Run.exec (match (call w.files w.services).outcome with
    | .ok () => (pure (.ok ()) : Run σ (Except ImageError Unit))
    | .error (.image cause) => pure (.error cause)
    | .error failure => throw failure) (w.after e (call w.files w.services)) = _
  rcases (call w.files w.services).outcome with failure | _
  · cases failure <;> rfl
  · rfl

/-- The outcome of a call that does not end the run. -/
theorem calling_ok {e : Event} {call : FileTree → σ → Reply σ} {w w' : World σ}
    {outcome : Except ImageError Unit} (h : (calling e call).exec w = (.ok outcome, w')) :
    w' = w.after e (call w.files w.services) ∧
      (call w.files w.services).outcome = outcome.mapError .image := by
  rw [exec_calling, Prod.mk.injEq] at h
  obtain ⟨h, rfl⟩ := h
  refine ⟨rfl, ?_⟩
  generalize (call w.files w.services).outcome = o at h
  split at h
  · rw [← Except.ok.inj h]
    rfl
  · rw [← Except.ok.inj h]
    rfl
  · cases h

end ImageService

end PluginCatalog
