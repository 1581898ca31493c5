import PluginCatalog.Proofs.FileTree.Content
import PluginCatalog.Proofs.FileTree.Ways

/-!
# Changes of a tree

* `FileTree.make_inv`, `FileTree.write_inv`, `FileTree.unlink_inv` and `FileTree.makeHardLink_inv`:
  what a change does, if the system makes it.
* `FileTree.DirectoriesStay t t'`: each directory of `t` is one of `t'`. No single change removes a
  directory (`FileTree.DirectoriesStay.make` and its like).
-/

namespace PluginCatalog.FileTree

variable {t t' : FileTree} {p : Path}

/-! ## Single changes -/

theorem make_inv {node : Node} (h : t.make p node = .ok t') :
    ∃ loc, t.locate p = .ok (.free loc) ∧ t' = t.set loc node := by
  unfold make at h
  rcases hspot : t.locate p with e | ⟨loc, node'⟩ | loc
  · rw [hspot] at h
    cases h
  · rw [hspot] at h
    cases h
  · rw [hspot] at h
    exact ⟨loc, rfl, (Except.ok.inj h).symm⟩

/-- A file that is there gets the content, or a new one is made. -/
theorem write_inv {content : Content} (h : t.write p content = .ok t') :
    (∃ loc serial old, t.follow p = .ok (.taken loc (.file serial old)) ∧
        t' = t.setContent serial content) ∨
      ∃ loc, t.follow p = .ok (.free loc) ∧ t' = t.set loc (.file t.freshSerial content) := by
  unfold write at h
  rcases hspot : t.follow p with e | ⟨loc, node⟩ | loc
  · rw [hspot] at h
    cases h
  · rw [hspot] at h
    cases node with
    | file serial old => exact .inl ⟨loc, serial, old, rfl, (Except.ok.inj h).symm⟩
    | directory => cases h
    | link target => cases h
    | special => cases h
  · rw [hspot] at h
    exact .inr ⟨loc, rfl, (Except.ok.inj h).symm⟩

/-- What is removed is no directory. -/
theorem unlink_inv (h : t.unlink p = .ok t') :
    ∃ loc node, t.locate p = .ok (.taken loc node) ∧ node ≠ .directory ∧ t' = t.erase loc := by
  unfold unlink at h
  rcases hspot : t.locate p with e | ⟨loc, node⟩ | loc
  · rw [hspot] at h
    cases h
  · rw [hspot] at h
    cases node with
    | directory => cases h
    | file n c => exact ⟨loc, _, rfl, nofun, (Except.ok.inj h).symm⟩
    | link target => exact ⟨loc, _, rfl, nofun, (Except.ok.inj h).symm⟩
    | special => exact ⟨loc, _, rfl, nofun, (Except.ok.inj h).symm⟩
  · rw [hspot] at h
    cases h

/-- What gets a second name is no directory. -/
theorem makeHardLink_inv {source : Path} (h : t.makeHardLink source p = .ok t') :
    ∃ loc node, t.locate source = .ok (.taken loc node) ∧ node ≠ .directory ∧
      t.make p node = .ok t' := by
  unfold makeHardLink at h
  rcases hspot : t.locate source with e | ⟨loc, node⟩ | loc
  · rw [hspot] at h
    cases h
  · rw [hspot] at h
    cases node with
    | directory =>
      rcases hm : t.make p .special with e | t₁
      · simp [hm, bind, Except.bind] at h
      · simp [hm, bind, Except.bind, throw, throwThe, MonadExceptOf.throw] at h
    | file n c => exact ⟨loc, _, rfl, nofun, h⟩
    | link target => exact ⟨loc, _, rfl, nofun, h⟩
    | special => exact ⟨loc, _, rfl, nofun, h⟩
  · rw [hspot] at h
    cases h

/-- What each making of a directory keeps is kept when those above it are made with it. -/
theorem makeWayReversed_keeps {P : FileTree → Prop} {slashes : Nat} {names : List String}
    (hdir : ∀ front, front <:+ names → ∀ t t', P t →
      t.makeDirectory ⟨slashes, front.reverse⟩ = .ok t' → P t') (h : P t) :
    P (t.makeWayReversed slashes names).1 := by
  induction names with
  | nil => exact h
  | cons name above ih =>
    have hlast : ∀ t : FileTree, P t →
        P (t.orUnchanged (t.makeDirectory ⟨slashes, (name :: above).reverse⟩)).1 := by
      intro t ht
      rcases hm : t.makeDirectory ⟨slashes, (name :: above).reverse⟩ with e | t'
      · exact ht
      · exact hdir _ List.suffix_rfl t t' ht hm
    have habove : P (t.makeWayReversed slashes above).1 :=
      ih fun front hfront => hdir front (hfront.trans (List.suffix_cons name above))
    unfold makeWayReversed
    dsimp only
    split
    · exact hlast t h
    · split
      next t₁ hr =>
        rw [hr] at habove
        split
        · exact habove
        · exact hlast t₁ habove
      next t₁ hr =>
        rw [hr] at habove
        split
        · exact habove
        · exact hlast t₁ habove
      next => exact habove

/-! ## Directories -/

/-- The directories of a tree are directories in another one. -/
def DirectoriesStay (t t' : FileTree) : Prop :=
  ∀ l, t.node? l = some .directory → t'.node? l = some .directory

theorem directoriesStay_refl (t : FileTree) : t.DirectoriesStay t := fun _ h => h

namespace DirectoriesStay

theorem trans {t'' : FileTree} (h : t.DirectoriesStay t') (h' : t'.DirectoriesStay t'') :
    t.DirectoriesStay t'' := fun l hl => h' l (h l hl)

theorem set {loc : Location} (hne : loc ≠ []) (hd : t.node? loc ≠ some .directory) (node : Node) :
    t.DirectoriesStay (t.set loc node) := by
  intro l hl
  rw [node?_set t hne, if_neg, hl]
  rintro rfl
  exact hd hl

theorem erase {loc : Location} (hne : loc ≠ []) (hd : t.node? loc ≠ some .directory) :
    t.DirectoriesStay (t.erase loc) := by
  intro l hl
  rw [node?_erase t hne, if_neg, hl]
  rintro rfl
  exact hd hl

theorem setContent (t : FileTree) (serial : Nat) (content : Content) :
    t.DirectoriesStay (t.setContent serial content) := by
  intro l hl
  rw [node?_setContent, hl]
  rfl

theorem make {node : Node} (h : t.make p node = .ok t') : t.DirectoriesStay t' := by
  obtain ⟨loc, hspot, rfl⟩ := make_inv h
  obtain ⟨hne, hfree⟩ := (reaches_of_locate hspot).node?_free
  exact .set hne (by simp [hfree]) node

theorem write {content : Content} (h : t.write p content = .ok t') : t.DirectoriesStay t' := by
  rcases write_inv h with ⟨loc, serial, old, -, rfl⟩ | ⟨loc, hspot, rfl⟩
  · exact .setContent t serial content
  · obtain ⟨hne, hfree⟩ := (reaches_of_follow hspot).node?_free
    exact .set hne (by simp [hfree]) _

theorem unlink (h : t.unlink p = .ok t') : t.DirectoriesStay t' := by
  obtain ⟨loc, node, hspot, hd, rfl⟩ := unlink_inv h
  obtain ⟨hne, hnode⟩ := (reaches_of_locate hspot).node?_taken hd
  exact .erase hne (by simpa [hnode] using hd)

theorem makeLink {target : String} (h : t.makeLink target p = .ok t') : t.DirectoriesStay t' := by
  unfold FileTree.makeLink at h
  split at h
  · cases h
  · exact .make h

theorem makeHardLink {source : Path} (h : t.makeHardLink source p = .ok t') :
    t.DirectoriesStay t' := by
  obtain ⟨-, node, -, -, hm⟩ := makeHardLink_inv h
  exact .make hm

theorem makeWay (t : FileTree) (p : Path) : t.DirectoriesStay (t.makeWay p).1 :=
  makeWayReversed_keeps (P := t.DirectoriesStay) (fun _ _ _ _ ht hm => ht.trans (.make hm))
    t.directoriesStay_refl

end DirectoriesStay

end PluginCatalog.FileTree
