import PluginCatalog.Proofs.Archive.Members
import PluginCatalog.Proofs.Archive.Safety
import PluginCatalog.Proofs.FileTree.Paved

/-!
# Directories while an archive is unpacked

`extractFrom_directoriesStay`: whatever is in an archive, and whether unpacking it succeeds or not,
no directory is removed or replaced. A link takes the place of a file or link only
(`replaceByLink_directoriesStay`).
-/

namespace PluginCatalog

open FileTree

variable {t t' : FileTree}

theorem makeAbove_directoriesStay (t : FileTree) (p : Path) :
    t.DirectoriesStay (makeAbove t p).1 := by
  have hway := DirectoriesStay.makeWay t p.parent
  unfold makeAbove
  split
  · exact t.directoriesStay_refl
  · rcases hrun : t.makeWay p.parent with ⟨t₁, e | _⟩ <;> rw [hrun] at hway <;> exact hway

/-- No directory is replaced by a link. -/
theorem replaceByLink_directoriesStay (t : FileTree) (target : String) (p : Path) :
    t.DirectoriesStay (replaceByLink t target p).1 := by
  unfold replaceByLink
  split
  · split
    next t₁ hu =>
      have hstay := DirectoriesStay.unlink hu
      exact Written.of_fst hstay fun t' hm => hstay.trans (.makeLink hm)
    next => exact t.directoriesStay_refl
  · exact Written.of_fst t.directoriesStay_refl fun t' hm => .makeLink hm

/-- **Unpacking an archive** removes no directory. -/
theorem extractFrom_directoriesStay (t : FileTree) (archive destination : Path) :
    t.DirectoriesStay (extractFrom t archive destination).1 := by
  refine extractFrom_fst t.directoriesStay_refl fun a _ _ => ?_
  refine writeMembers_keeps (P := t.DirectoriesStay) (fun i m t₁ _ h => ?_) rfl
    t.directoriesStay_refl
  refine writeMember_keeps t.DirectoriesStay (fun _ => True) ?_ ?_ ?_ ?_ ?_ ?_ (by simp) trivial h
  · exact fun t' h => h.trans (makeAbove_directoriesStay t' _)
  · exact fun t' content t'' h hm => h.trans (.write hm)
  · exact fun t' t'' h hm => h.trans (.make hm)
  · exact fun t' t'' h hm => h.trans (.make hm)
  · exact fun j name target t' _ _ h => h.trans (replaceByLink_directoriesStay t' target _)
  · exact fun j name target t' t'' _ _ h hm => h.trans (.makeHardLink hm)

end PluginCatalog
