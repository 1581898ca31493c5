import PluginCatalog.Proofs.Execution
import PluginCatalog.Recommendation

/-!
# What resources recommend

The documents of a file of resources are read one after the other. One plugin resource without a
name is enough for an error, whatever its target is; otherwise each resource for the target
recommends its version.

* `Value.IsVoid` are the values that count as nothing (`Value.isTruthy_eq_false_iff`).
* `Resource.ofDocuments` are the plugin resources among documents. `Resource.WellShaped` says where
  one has mappings and texts, `Resource.Nameless` that it has no name, and `Resource.IsFor` that it
  is for a target.
* `Resource.recommendationOf_eq` is the step for one resource, `Resource.mapM_recommendationOf` the
  run over all of them.
* `Resource.recommendationsAt_resources` is the outcome for a file.
-/

namespace PluginCatalog

/-! ## Values that count as nothing -/

/-- A value that counts as nothing: null, false, zero or empty. -/
inductive Value.IsVoid : Value → Prop
  | null : IsVoid .null
  | false : IsVoid (.bool .false)
  | zero : IsVoid (.int 0)
  | zeroFloat {x : Float} (h : (x == 0) = .true) : IsVoid (.float x)
  | text : IsVoid (.text "")
  | bytes : IsVoid (.bytes [])
  | list : IsVoid (.list [])
  | map : IsVoid (.map [])
  | set : IsVoid (.set [])

theorem Value.isTruthy_eq_false_iff {v : Value} : v.isTruthy = false ↔ v.IsVoid := by
  constructor
  · intro h
    cases v with
    | null => exact .null
    | bool b =>
      obtain rfl : b = .false := h
      exact .false
    | int n =>
      obtain rfl : n = 0 := by simpa [isTruthy] using h
      exact .zero
    | float x => exact .zeroFloat (by simpa [isTruthy, bne] using h)
    | text s =>
      obtain rfl : s = "" := by simpa [isTruthy] using h
      exact .text
    | bytes bs =>
      obtain rfl : bs = [] := by simpa [isTruthy] using h
      exact .bytes
    | list items =>
      obtain rfl : items = [] := by simpa [isTruthy] using h
      exact .list
    | map entries =>
      obtain rfl : entries = [] := by simpa [isTruthy] using h
      exact .map
    | set items =>
      obtain rfl : items = [] := by simpa [isTruthy] using h
      exact .set
    | date _ | moment _ | pair _ _ | cycle _ => cases h
  · rintro (_ | _ | _ | h | _ | _ | _ | _ | _)
    case zeroFloat => simp [isTruthy, bne, h]
    all_goals rfl

namespace Resource

variable {entries : List (Value × Value)} {asked asked' : String} {path : Path}
  {documents documents' : List Value}

/-! ## The parts of a resource -/

/-- Whether a mapping is a plugin resource. -/
def isPlugin (entries : List (Value × Value)) : Bool :=
  match Value.lookup? "kind" entries with
  | some (.text kind) => kind == "CLIPlugin"
  | _ => false

/-- The plugin resources among documents, in their order. -/
def ofDocuments (documents : List Value) : List (List (Value × Value)) :=
  documents.filterMap fun
    | .map entries => if isPlugin entries then some entries else none
    | _ => none

/-- The entries of the mapping at a key, none where no mapping is. -/
def mappingAt (key : String) (entries : List (Value × Value)) : List (Value × Value) :=
  match Value.lookup? key entries with
  | some (.map fields) => fields
  | _ => []

/-- The name of a resource. -/
def name? (entries : List (Value × Value)) : Option Value :=
  Value.lookup? "name" (mappingAt "metadata" entries)

/-- The target that a text denotes; what is no text denotes the empty one. -/
def denoted : Option Value → String
  | some (.text s) => Target.normalize s
  | _ => ""

/-- The target that a resource denotes. -/
def target (entries : List (Value × Value)) : String :=
  denoted (Value.lookup? "target" (mappingAt "spec" entries))

/-- The version that a resource recommends, the empty text where it has none. -/
def version (entries : List (Value × Value)) : Value :=
  (Value.lookup? "recommendedVersion" (mappingAt "spec" entries)).getD (.text "")

/-- The name of a resource is missing or counts as nothing. -/
def Nameless (entries : List (Value × Value)) : Prop :=
  ∀ name, name? entries = some name → name.IsVoid

theorem nameless_iff : Nameless entries ↔ (name? entries).filter (·.isTruthy) = none := by
  unfold Nameless
  cases name? entries with
  | none => simp
  | some name => simp [← Value.isTruthy_eq_false_iff]

instance : Decidable (Nameless entries) := decidable_of_iff _ nameless_iff.symm

/-- A resource is for the target asked for: for all targets, for this one, or all are asked for. -/
def IsFor (asked : String) (entries : List (Value × Value)) : Prop :=
  asked = "" ∨ target entries = "" ∨ target entries = Target.normalize asked

instance : Decidable (IsFor asked entries) := inferInstanceAs (Decidable (_ ∨ _ ∨ _))

/-! ## The shape of a resource -/

/-- A value is a mapping, null or missing. -/
def mayBeMapping : Option Value → Bool
  | none | some .null | some (.map _) => true
  | _ => false

/-- A value is a text, null or missing. -/
def mayBeText : Option Value → Bool
  | none | some .null | some (.text _) => true
  | _ => false

/-- A resource has mappings around its name and its target, and a text as its target, if any. -/
structure WellShaped (entries : List (Value × Value)) : Prop where
  metadata : mayBeMapping (Value.lookup? "metadata" entries)
  spec : mayBeMapping (Value.lookup? "spec" entries)
  target : mayBeText (Value.lookup? "target" (mappingAt "spec" entries))

instance : Decidable (WellShaped entries) :=
  decidable_of_iff (_ ∧ _ ∧ _) ⟨fun ⟨hm, hs, ht⟩ => ⟨hm, hs, ht⟩, fun ⟨hm, hs, ht⟩ => ⟨hm, hs, ht⟩⟩

/-! ## What a resource recommends -/

/-- The name of a resource and the version that it recommends. -/
def recommendation (entries : List (Value × Value)) : Recommendation :=
  ((name? entries).getD .null, version entries)

/-- The recommendations of the resources for a target, in their order. -/
def recommended (asked : String) (documents : List Value) : List Recommendation :=
  ((ofDocuments documents).filter (IsFor asked ·)).map recommendation

/-! ## One resource -/

theorem isPlugin_iff :
    isPlugin entries = true ↔ Value.lookup? "kind" entries = some (.text "CLIPlugin") := by
  unfold isPlugin
  split <;> simp_all

theorem resource?_map (entries : List (Value × Value)) :
    resource? (.map entries) = if isPlugin entries then some entries else none := by
  rw [resource?]
  cases hkind : isPlugin entries with
  | true =>
    rw [isPlugin_iff.1 hkind]
    rfl
  | false =>
    rw [Bool.eq_false_iff, Ne, isPlugin_iff] at hkind
    split
    next kind hvalue =>
      refine if_neg fun h => hkind ?_
      rw [hvalue, h, pluginKind]
    next => rfl

theorem filterMap_resource? (documents : List Value) :
    documents.filterMap resource? = ofDocuments documents := by
  refine congrArg (documents.filterMap ·) (funext fun d => ?_)
  cases d with
  | map entries => exact resource?_map entries
  | _ => rfl

theorem mappingField_eq {key : String} (h : mayBeMapping (Value.lookup? key entries)) :
    mappingField key entries = .ok (mappingAt key entries) := by
  unfold mappingField mappingAt
  generalize Value.lookup? key entries = field at h
  match field, h with
  | none, _ | some .null, _ | some (.map []), _ | some (.map (_ :: _)), _ => rfl

theorem isFor_eq (asked : String) {field : Option Value} (h : mayBeText field) :
    isFor asked (field.getD (.text "")) =
      .ok (decide (asked = "" ∨ denoted field = "" ∨ denoted field = Target.normalize asked)) := by
  have hempty : Target.normalize "" = "" := by decide +kernel
  match field, h with
  | none, _ => simp [isFor, denoted, hempty]
  | some .null, _ => simp [isFor, denoted]
  | some (.text s), _ =>
    refine congrArg _ (Bool.eq_iff_iff.2 ?_)
    rw [decide_eq_true_iff]
    simp [denoted, or_assoc]

/-- **One resource** without a name is an error, whatever its target is; one with a name recommends
its version if it is for the target. -/
theorem recommendationOf_eq (path : Path) (asked : String) (h : WellShaped entries) :
    recommendationOf path asked entries =
      if Nameless entries then .error (.discovery (.nameless path))
      else .ok (if IsFor asked entries then some (recommendation entries) else none) := by
  rw [recommendationOf, mappingField_eq h.metadata, mappingField_eq h.spec]
  dsimp only [Except.mapError, bind, Except.bind]
  -- The name is looked at first, so that without one the target does not matter.
  cases hname : (Value.lookup? "name" (mappingAt "metadata" entries)).filter (·.isTruthy) with
  | none => exact (if_pos (nameless_iff.2 hname)).symm
  | some name =>
    have hnamed : ¬Nameless entries := by
      rw [nameless_iff, name?, hname]
      exact nofun
    change ((isFor asked _).mapError Failure.fault >>= fun wanted =>
      if wanted then .ok (some (name, version entries)) else .ok none) = _
    rw [isFor_eq asked h.target, if_neg hnamed, recommendation, name?,
      (Option.filter_eq_some_iff.1 hname).1]
    by_cases hfor : IsFor asked entries
    · rw [if_pos hfor]
      exact if_pos (decide_eq_true hfor)
    · rw [if_neg hfor]
      exact if_neg fun h => hfor (of_decide_eq_true h)

/-! ## All resources -/

/-- **All resources**: one without a name is enough for the error. -/
theorem mapM_recommendationOf (path : Path) (asked : String)
    {resources : List (List (Value × Value))} (h : ∀ entries ∈ resources, WellShaped entries) :
    resources.mapM (recommendationOf path asked) =
      if ∃ entries ∈ resources, Nameless entries then .error (.discovery (.nameless path))
      else .ok (resources.map fun entries =>
        if IsFor asked entries then some (recommendation entries) else none) := by
  induction resources with
  | nil => rfl
  | cons entries resources ih =>
    obtain ⟨hentries, hresources⟩ := List.forall_mem_cons.1 h
    have hcons : (∃ e ∈ entries :: resources, Nameless e) ↔
        Nameless entries ∨ ∃ e ∈ resources, Nameless e := by simp
    rw [List.mapM_cons, recommendationOf_eq path asked hentries, ih hresources]
    -- The error is the same one for the first resource and for a later one.
    by_cases hname : Nameless entries
    · rw [if_pos hname, if_pos (hcons.2 (.inl hname))]
      rfl
    · rw [if_neg hname]
      by_cases hrest : ∃ entries ∈ resources, Nameless entries
      · rw [if_pos hrest, if_pos (hcons.2 (.inr hrest))]
        rfl
      · rw [if_neg hrest, if_neg fun h => (hcons.1 h).elim hname hrest]
        rfl

theorem filterMap_recommendation (asked : String) (resources : List (List (Value × Value))) :
    (resources.map fun entries =>
      if IsFor asked entries then some (recommendation entries) else none).filterMap id =
        (resources.filter (IsFor asked ·)).map recommendation := by
  rw [List.filterMap_map, ← List.filterMap_eq_map (f := recommendation), List.filterMap_filter]
  simp

/-- The outcome for documents. -/
theorem recommendationsOf_eq (path : Path) (asked : String)
    (h : ∀ entries ∈ ofDocuments documents, WellShaped entries) :
    recommendationsOf path asked documents =
      if ∃ entries ∈ ofDocuments documents, Nameless entries then
        .error (.discovery (.nameless path))
      else .ok (recommended asked documents) := by
  rw [recommendationsOf, filterMap_resource?, mapM_recommendationOf path asked h, recommended,
    ← filterMap_recommendation]
  split <;> rfl

/-! ## Other documents and other spellings -/

/-- Two spellings of a target ask for the same resources. -/
theorem isFor_congr (hasked : asked ≠ "") (hasked' : asked' ≠ "")
    (h : Target.normalize asked = Target.normalize asked') : isFor asked = isFor asked' := by
  have hempty : asked.isEmpty = asked'.isEmpty := by
    rw [Bool.eq_iff_iff, String.isEmpty_iff, String.isEmpty_iff]
    exact iff_of_false hasked hasked'
  funext v
  cases v with
  | text s => simp only [isFor, h, hempty]
  | bytes bs => simp only [isFor, hempty]
  | _ => rfl

theorem recommendationsOf_congr (hasked : asked ≠ "") (hasked' : asked' ≠ "")
    (h : Target.normalize asked = Target.normalize asked') :
    recommendationsOf path asked documents = recommendationsOf path asked' documents := by
  have hstep : recommendationOf path asked = recommendationOf path asked' := by
    unfold recommendationOf
    rw [isFor_congr hasked hasked' h]
  rw [recommendationsOf, recommendationsOf, hstep]

theorem recommendationsAt_eq (asked : String) {t : FileTree}
    (hread : readDocuments t path = .ok documents) :
    recommendationsAt t path asked = recommendationsOf path asked documents := by
  rw [recommendationsAt, hread]

/-- **What the resources in a file recommend.** If they have mappings and texts where they should,
the error is raised exactly if one of them has no name, and otherwise the resources for the target
recommend their versions, in their order. Documents that are no plugin resources do not matter, nor
does the spelling of the target asked for. -/
theorem recommendationsAt_resources {t : FileTree} (hread : readDocuments t path = .ok documents)
    (h : ∀ entries ∈ ofDocuments documents, WellShaped entries) (asked : String) :
    ((∃ e, recommendationsAt t path asked = .error (.discovery e)) ↔
        ∃ entries ∈ ofDocuments documents, Nameless entries) ∧
      ((¬∃ entries ∈ ofDocuments documents, Nameless entries) →
        recommendationsAt t path asked = .ok (recommended asked documents)) ∧
      (∀ t' documents', readDocuments t' path = .ok documents' →
        ofDocuments documents' = ofDocuments documents →
          recommendationsAt t' path asked = recommendationsAt t path asked) ∧
      ∀ asked', asked ≠ "" → asked' ≠ "" → Target.normalize asked = Target.normalize asked' →
        recommendationsAt t path asked' = recommendationsAt t path asked := by
  have houtcome := (recommendationsAt_eq asked hread).trans (recommendationsOf_eq path asked h)
  refine ⟨?_, fun hnamed => ?_, fun t' documents' hread' hsame => ?_, fun asked' ha ha' hsame => ?_⟩
  · by_cases hname : ∃ entries ∈ ofDocuments documents, Nameless entries
    · rw [houtcome, if_pos hname]
      exact iff_of_true ⟨_, rfl⟩ hname
    · rw [houtcome, if_neg hname]
      exact iff_of_false nofun hname
  · rw [houtcome, if_neg hnamed]
  · rw [recommendationsAt_eq asked hread', recommendationsAt_eq asked hread, recommendationsOf,
      recommendationsOf, filterMap_resource?, filterMap_resource?, hsame]
  · rw [recommendationsAt_eq asked' hread, recommendationsAt_eq asked hread]
    exact (recommendationsOf_congr ha ha' hsame).symm

/-- A resource for the target in another spelling than asked for, a document that is no mapping, and
a resource for another target. -/
theorem recommendationsAt_resources_spellings :
    let text := "\x7bkind: CLIPlugin, metadata: \x7bname: a\x7d, spec: \x7btarget: K8S\x7d\x7d\n" ++
      "--- 3\n--- \x7bkind: CLIPlugin, metadata: \x7bname: b\x7d, spec: \x7btarget: tmc\x7d\x7d\n"
    let t : FileTree := ⟨[], [(["r.yaml"], .file 0 (.text text))]⟩
    ∃ documents, readDocuments t "r.yaml" = .ok documents ∧
      (∀ entries ∈ ofDocuments documents, WellShaped entries) ∧
      (recommended "kubernetes" documents).map (·.1.literal?) = [some "'a'"] ∧
      recommendationsAt t "r.yaml" "kubernetes" = .ok (recommended "kubernetes" documents) ∧
      recommendationsAt t "r.yaml" "k8s" = recommendationsAt t "r.yaml" "kubernetes" := by
  intro text t
  have hfile : (readDocuments t "r.yaml").toOption.any (fun documents => decide
      ((∀ entries ∈ ofDocuments documents, WellShaped entries) ∧
        (¬∃ entries ∈ ofDocuments documents, Nameless entries) ∧
        (recommended "kubernetes" documents).map (·.1.literal?) = [some "'a'"])) := by
    decide +kernel
  cases hread : readDocuments t "r.yaml" with
  | error e =>
    rw [hread] at hfile
    cases hfile
  | ok documents =>
    rw [hread] at hfile
    obtain ⟨hshaped, hnamed, hnames⟩ := of_decide_eq_true hfile
    obtain ⟨-, hlist, -, hspelling⟩ := recommendationsAt_resources hread hshaped "kubernetes"
    exact ⟨documents, rfl, hshaped, hnames, hlist hnamed,
      hspelling "k8s" (by decide) (by decide) (by decide +kernel)⟩

end Resource

end PluginCatalog
