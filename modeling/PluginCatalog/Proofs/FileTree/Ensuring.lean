import PluginCatalog.Proofs.FileTree.MakingWay
import PluginCatalog.Proofs.FileTree.Paved

/-!
# Making sure of a directory

* `FileTree.EnsureStep` lists what making sure of a directory can do, and `FileTree.ensureStep` says
  that there is nothing else. It succeeds just if afterwards there is a directory
  (`FileTree.isDirectory_ensureDirectory`), and doing it again changes nothing
  (`FileTree.ensureDirectory_again`).
* `FileTree.Unused t p`: no file is at a path, and none comes to light when the directories above it
  are made (`FileTree.Unused.file?`, `FileTree.Unused.ensureDirectory`).
-/

namespace PluginCatalog.FileTree

variable {t t' : FileTree} {p : Path}

/-! ## Directories that are there -/

theorem isDirectory_iff : t.isDirectory p ↔ ∃ loc, t.follow p = .ok (.taken loc .directory) := by
  refine ⟨fun h => ?_, fun ⟨loc, h⟩ => isDirectory_of_follow h⟩
  unfold isDirectory find? at h
  rcases hf : t.follow p with e | ⟨loc, node⟩ | loc
  · simp [hf] at h
  · cases node <;> simp_all
  · simp [hf] at h

/-- What a path leads to is in the directory above it, a link at its end followed or not. -/
theorem isDirectory_parent {last : Bool} {spot : Spot} (hne : p.parts ≠ [])
    (h : t.walk last maxLinks (origin t.working p) p.parts = .ok spot) :
    t.isDirectory p.parent := by
  rw [← List.dropLast_concat_getLast hne] at h
  exact isDirectory_iff.2 (walk_front h)

/-- Where there is a directory none is made. -/
theorem makeDirectory_of_isDirectory (h : t.isDirectory p) :
    t.makeDirectory p = .error .alreadyExists := by
  obtain ⟨loc, hf⟩ := isDirectory_iff.1 h
  rcases walk_or_link hf with hl | ⟨l, target, hl⟩
  · exact makeDirectory_taken hl
  · exact makeDirectory_taken hl

/-- **A directory that is there is not made again.** -/
theorem ensureDirectory_of_isDirectory (h : t.isDirectory p) :
    t.ensureDirectory p = (t, .ok ()) := by
  by_cases hne : p.parts = []
  · unfold ensureDirectory
    rw [hne]
    rfl
  · rw [ensureDirectory_eq hne, makeDirectory_of_isDirectory h]
    exact if_pos h

/-- A free place is found whether or not a link at the end is followed. -/
theorem Reaches.follows {links : Nat} {here loc : Location} {names : List String}
    (h : Reaches t false links here names (.free loc)) :
    Reaches t true links here names (.free loc) := by
  generalize hspot : Spot.free loc = spot at h
  induction h with
  | here => cases hspot
  | dot _ ih => exact .dot (ih hspot)
  | up _ ih => exact .up (ih hspot)
  | free hn hnode => exact .free hn hnode
  | enter hn hnode _ ih => exact .enter hn hnode (ih hspot)
  | keep => cases hspot
  | link hn hnode ht _ _ ih => exact .link hn hnode ht (.inr rfl) (ih hspot)
  | leaf => cases hspot

/-- A directory that was made is there. -/
theorem isDirectory_makeDirectory (h : t.makeDirectory p = .ok t') : t'.isDirectory p := by
  obtain ⟨loc, hspot, rfl⟩ := make_inv h
  have hf : (t.set loc .directory).follow p = .ok (.taken loc .directory) :=
    walk_set_free directory_ne_link (reaches_of_locate hspot).follows.walk
  exact isDirectory_of_follow hf

/-! ## Making sure -/

/-- What holds of the paths without components, and of each path if of the one above it. -/
theorem parent_induction {P : Path → Prop} (root : ∀ p, p.parts = [] → P p)
    (child : ∀ p, p.parts ≠ [] → P p.parent → P p) (p : Path) : P p := by
  by_cases hne : p.parts = []
  · exact root p hne
  · exact child p hne (parent_induction root child p.parent)
termination_by p.parts.length
decreasing_by
  have hpos := List.length_pos_iff.2 hne
  simp only [Path.parent, List.length_dropLast]
  omega

theorem isDirectory_of_parts_nil (h : p.parts = []) : t.isDirectory p := by
  refine isDirectory_iff.2 ⟨origin t.working p, ?_⟩
  rw [follow, h, walk_nil]

/-- What making sure of a directory does. -/
inductive EnsureStep (t : FileTree) (p : Path) : FileTree × Except FileFault Unit → Prop where
  | made {t' : FileTree} (hm : t.makeDirectory p = .ok t') : EnsureStep t p (t', .ok ())
  | kept {e : FileFault} (hm : t.makeDirectory p = .error e) (he : e ≠ .notFound) :
    EnsureStep t p (t, if t.isDirectory p then .ok () else .error e)
  | refused {t₁ : FileTree} {e : FileFault}
    (ha : t.ensureDirectory p.parent = (t₁, .error e)) : EnsureStep t p (t₁, .error e)
  | madeAfter {t₁ t' : FileTree} (hm : t.makeDirectory p = .error .notFound)
    (ha : t.ensureDirectory p.parent = (t₁, .ok ())) (hm' : t₁.makeDirectory p = .ok t') :
    EnsureStep t p (t', .ok ())
  | keptAfter {t₁ : FileTree} {e : FileFault}
    (ha : t.ensureDirectory p.parent = (t₁, .ok ())) (hm : t₁.makeDirectory p = .error e) :
    EnsureStep t p (t₁, if t₁.isDirectory p then .ok () else .error e)

/-- **Making sure of a directory does one of these things.** -/
theorem ensureStep (hne : p.parts ≠ []) : EnsureStep t p (t.ensureDirectory p) := by
  rw [ensureDirectory_eq hne]
  split
  next hm => exact .made hm
  next hm =>
    split
    next ha => exact .refused ha
    next ha =>
      split
      next hm' => exact .madeAfter hm ha hm'
      next hm' =>
        rw [← apply_ite (Prod.mk _)]
        exact .keptAfter ha hm'
  next he hm =>
    rw [← apply_ite (Prod.mk t)]
    exact .kept hm he

/-- **Making sure of a directory succeeds just if afterwards there is one.** -/
theorem isDirectory_ensureDirectory (t : FileTree) (p : Path) :
    (t.ensureDirectory p).1.isDirectory p ↔ (t.ensureDirectory p).2 = .ok () := by
  induction p using parent_induction with
  | root p h => simp [ensureDirectory_of_isDirectory, isDirectory_of_parts_nil h]
  | child p hne ih =>
    have hstep := ensureStep (t := t) hne
    generalize t.ensureDirectory p = r at hstep ⊢
    cases hstep with
    | made hm => simp [isDirectory_makeDirectory hm]
    | madeAfter _ _ hm => simp [isDirectory_makeDirectory hm]
    | @kept e => by_cases hd : t.isDirectory p <;> simp [hd]
    | @keptAfter t₁ => by_cases hd : t₁.isDirectory p <;> simp [hd]
    | refused ha =>
      rw [ha] at ih
      refine iff_of_false (fun hd => ?_) nofun
      obtain ⟨loc, hf⟩ := isDirectory_iff.1 hd
      simpa using ih.1 (isDirectory_parent hne hf)

/-- Where neither the directory nor those above it are made, nothing is. -/
theorem ensureDirectory_unchanged (hne : p.parts ≠ []) (hmake : ∀ t', t.makeDirectory p ≠ .ok t')
    (habove : (t.ensureDirectory p.parent).1 = t) : (t.ensureDirectory p).1 = t := by
  have hstep := ensureStep (t := t) hne
  generalize t.ensureDirectory p = r at hstep ⊢
  cases hstep with
  | made hm => exact absurd hm (hmake _)
  | kept => rfl
  | refused ha => rw [← habove, ha]
  | madeAfter _ ha hm' =>
    obtain rfl : _ = t := by rw [← habove, ha]
    exact absurd hm' (hmake _)
  | keptAfter ha => rw [← habove, ha]

/-- **Making sure of a directory again changes nothing.** -/
theorem ensureDirectory_again (t : FileTree) (p : Path) :
    ((t.ensureDirectory p).1.ensureDirectory p).1 = (t.ensureDirectory p).1 := by
  induction p using parent_induction with
  | root p h => simp [ensureDirectory_of_isDirectory, isDirectory_of_parts_nil h]
  | child p hne ih =>
    by_cases hd : (t.ensureDirectory p).1.isDirectory p
    · rw [ensureDirectory_of_isDirectory hd]
    have habove := isDirectory_ensureDirectory t p.parent
    have hstep := ensureStep (t := t) hne
    generalize hr : t.ensureDirectory p = r at hstep hd ⊢
    cases hstep with
    | made hm => exact absurd (isDirectory_makeDirectory hm) hd
    | madeAfter _ _ hm => exact absurd (isDirectory_makeDirectory hm) hd
    | kept => rw [hr]
    | refused ha =>
      rw [ha] at ih habove
      refine ensureDirectory_unchanged hne (fun t' hm => ?_) ih
      obtain ⟨loc, hspot, -⟩ := make_inv hm
      simpa using habove.1 (isDirectory_parent hne hspot)
    | keptAfter ha hm =>
      rw [ha] at ih
      exact ensureDirectory_unchanged hne (by simp [hm]) ih

/-! ## Places that are not used -/

/-- No file is at a path, and none comes to light when the directories above it are made, as the
file `b` does for the path `a/../b` as soon as there is a directory `a`. -/
def Unused (t : FileTree) (p : Path) : Prop := (t.ensureDirectory p.parent).1.file? p = none

instance (t : FileTree) (p : Path) : Decidable (t.Unused p) :=
  inferInstanceAs (Decidable (_ = none))

/-- What leads to a file is seen in the same way after the directories above it were made. -/
theorem ensureDirectory_of_file? {content : Content} (h : t.file? p = some content) :
    t.ensureDirectory p.parent = (t, .ok ()) := by
  obtain ⟨loc, serial, hf⟩ := follow_of_file? h
  exact ensureDirectory_of_isDirectory (isDirectory_parent (parts_ne_nil_of_file? h) hf)

theorem Unused.file? (h : t.Unused p) : t.file? p = none := by
  rcases hf : t.file? p with _ | content
  · rfl
  · rw [Unused, ensureDirectory_of_file? hf, hf] at h
    cases h

theorem Unused.ensureDirectory (h : t.Unused p) : (t.ensureDirectory p.parent).1.Unused p := by
  rw [Unused, ensureDirectory_again]
  exact h

end PluginCatalog.FileTree
