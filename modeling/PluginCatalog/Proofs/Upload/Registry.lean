import PluginCatalog.Proofs.Store.MergingFiles
import PluginCatalog.Proofs.Upload.Exchanges

/-!
# Registries

A registry holds at an address the file that was published there last, with the name and the rows
that it had then. `Registry s held` says of an image service `s` what is relied on: `held` is what a
state of the service holds, a file that is published is held, a call that fails changes nothing, and
what is held is what is fetched.

The steps of publishing a bundle before its store is published leave what is held as it is
(`keeps_prepare`, `keeps_mergePublished`).
-/

namespace PluginCatalog

variable {σ : Type}

/-- A published file: its name and the rows in it; a file that is no store has none. -/
structure Holding where
  name : String
  rows : Option (List ReadRow)

/-- The builds in what is held, if something is. -/
def Holding.builds (h : Option Holding) : List Build :=
  ((h.bind Holding.rows).getD []).map Row.build

/-- What is relied on of the service of a registry, of which each state holds files at addresses. -/
structure Registry (s : ImageService σ) (held : σ → String → Option Holding) : Prop where
  /-- Images do not change what is held. -/
  copied : ∀ image address t st, held (s.copy image address t st).services = held st
  /-- A file that is published is held. -/
  pushed : ∀ address p t st, (s.push address [p] t st).outcome = .ok () →
    held (s.push address [p] t st).services =
      Function.update (held st) address (some ⟨p.name, rowsAt? t p⟩)
  /-- A file that is not published changes nothing. -/
  refused : ∀ address p t st e, (s.push address [p] t st).outcome = .error e →
    held (s.push address [p] t st).services = held st
  /-- Fetching does not change what is held. -/
  kept : ∀ address directory t st, held (s.pull address directory t st).services = held st
  /-- What is fetched is the file that is held. -/
  pulled : ∀ address directory t st, (s.pull address directory t st).outcome = .ok () →
    ∃ h, held st address = some h ∧
      rowsAt? (s.pull address directory t st).files (directory / h.name) = h.rows

namespace Uploader

/-! ## Publishing with a registry -/

section Registry

variable {s : ImageService σ} {held : σ → String → Option Holding} (hs : Registry s held)
  (u : Uploader) (kept : String → Option Holding)

include hs

/-- Nothing is published before the store. -/
theorem keeps_prepare : Run.Keeps (fun w => held w.services = kept) (u.prepare s) := by
  refine keeps_prepare_of_calls (fun _ _ _ h => h) (fun _ _ h => h) (fun _ _ h => h) ?_
  intro image address w h
  rw [ImageService.copyImage, ImageService.exec_calling]
  exact (hs.copied image address w.files w.services).trans h

/-- Nothing is published while the store is merged. -/
theorem keeps_mergePublished (address : String) (store : Path) :
    Run.Keeps (fun w => held w.services = kept) (u.mergePublished s address store) := by
  intro w h
  refine after_mergePublished (I := fun w => held w.services = kept) (fun _ _ _ h => h)
    (fun _ _ h _ => h) (fun _ _ h => h) (fun _ _ => h) fun _ => ?_
  exact (hs.kept address u.downloads _ w.services).trans h

end Registry

end Uploader

end PluginCatalog
