import PluginCatalog.Archive.Extraction
import PluginCatalog.Proofs.Execution
import PluginCatalog.Proofs.FileTree.Canonical

/-!
# What the check of members says

* `place_of_checkMember`: a member that passes has a place in the directory, and so has the target
  of a link (`target_of_checkMember`).
* `extractFrom_fst`: nothing is written before all members of an archive have passed.
-/

namespace PluginCatalog

open FileTree

/-! ## Paths -/

theorem origin_append (here : Location) (p q : Path) :
    origin here (p.append q) = origin (origin here p) q := by
  unfold Path.append
  split
  next h => simp only [origin, h, if_true]
  next h =>
    rw [origin, origin, origin, if_neg h]
    rfl

theorem filter_ofTextDotted (s : String) :
    (Path.ofTextDotted s).parts.filter (· != ".") = Path.components s := by
  simp only [Path.ofTextDotted, Path.components, List.filter_filter]
  congr 1
  funext part
  exact Bool.and_comm _ _

/-! ## The check -/

section Check

variable {t : FileTree} {archive destination : Path} {root : Location}

theorem canonical_of_lookUp {directory : Path} {name : String} {loc : Location}
    (h : lookUp t directory name = .ok loc) : t.canonical (directory / name) = .ok loc := by
  unfold lookUp at h
  split at h
  · cases h
  · exact h

/-- A member that passes lands in the directory, and its target is relative and in it too. -/
theorem place_of_checkMember {m : Member}
    (h : checkMember t archive destination root m = .ok ()) :
    ∃ place, t.canonical (destination / m.name) = .ok place ∧ root <+: place ∧
      (linkLocation? t destination place m.kind = .ok none ∨ ∃ target loc,
        linkLocation? t destination place m.kind = .ok (some (target, loc)) ∧
          (Path.ofText target).isAbsolute = false ∧ root <+: loc) := by
  unfold checkMember at h
  rcases hplace : lookUp t destination m.name with e | place
  · rw [hplace] at h
    cases h
  rw [hplace] at h
  refine ⟨place, canonical_of_lookUp hplace, ?_⟩
  by_cases hin : isWithin root place
  · refine ⟨List.isPrefixOf_iff_prefix.1 hin, ?_⟩
    rcases hloc : linkLocation? t destination place m.kind with e | _ | ⟨target, loc⟩
    · simp [Except.mapError, bind, Except.bind, hin, hloc] at h
    · exact .inl rfl
    · simp only [Except.mapError, bind, Except.bind, hin, hloc, Bool.not_true] at h
      by_cases hbad : (Path.ofText target).isAbsolute || !isWithin root loc
      · simp [hbad, throw, throwThe, MonadExceptOf.throw] at h
      · rw [Bool.or_eq_true, not_or, Bool.not_eq_true, Bool.not_eq_true', Bool.not_eq_false] at hbad
        exact .inr ⟨target, loc, rfl, hbad.1, List.isPrefixOf_iff_prefix.1 hbad.2⟩
  · simp [Except.mapError, bind, Except.bind, hin, throw, throwThe, MonadExceptOf.throw] at h

/-- The target of a symbolic link that passes is in the directory, if it leads anywhere. -/
theorem target_of_checkMember {m : Member} {target : String} {place l : Location}
    (h : checkMember t archive destination root m = .ok ()) (hkind : m.kind = .symlink target)
    (hplace : t.canonical (destination / m.name) = .ok place) (hs : Settled t place.dropLast)
    (hl : Leads t place.dropLast (Path.components target) l) :
    (Path.ofText target).isAbsolute = false ∧ root <+: l := by
  obtain ⟨place', hplace', -, hlink⟩ := place_of_checkMember h
  obtain rfl : place' = place := Except.ok.inj (hplace'.symm.trans hplace)
  rw [hkind] at hlink
  rcases hloc : lookUp t (⟨1, place'.dropLast⟩ : Path) target with e | loc
  · simp [linkLocation?, hloc, bind, Except.bind] at hlink
  simp only [linkLocation?, hloc, bind, Except.bind, pure, Except.pure, Except.ok.injEq,
    Option.some.injEq, Prod.mk.injEq, reduceCtorEq, false_or] at hlink
  obtain ⟨_, _, ⟨rfl, rfl⟩, hrel, hin⟩ := hlink
  refine ⟨hrel, ?_⟩
  -- The target as the check sees it, from the root along the names of the directory.
  have hlead : Leads t [] (place'.dropLast ++ Path.components target) l := by
    have hdir : Leads t [] place'.dropLast place'.dropLast := @Settled.leads t [] _ hs
    exact hdir.append hl
  have hp : (⟨1, place'.dropLast⟩ : Path) / target =
      ⟨1, place'.dropLast ++ Path.components target⟩ := by
    change Path.append _ _ = _
    rw [Path.append, hrel, if_neg Bool.false_ne_true]
    rfl
  have hcanon : t.canonical ⟨1, place'.dropLast ++ Path.components target⟩ = .ok l :=
    canonical_of_leads hlead
  have hsame := canonical_of_lookUp hloc
  rw [hp, hcanon] at hsame
  exact Except.ok.inj hsame ▸ hin

/-! ## Extraction -/

theorem checkMember_of_checkMembers {members : List Member}
    (hcanon : t.canonical destination = .ok root)
    (h : checkMembers t archive destination members = .ok ()) :
    ∀ m ∈ members, checkMember t archive destination root m = .ok () := by
  unfold checkMembers at h
  rw [hcanon] at h
  exact forM_eq_ok_iff.1 h

/-- What holds of the files before an extraction, and after its members were written if they have
passed, holds afterwards. -/
theorem extractFrom_fst {P : FileTree → Prop} (h : P t)
    (hwrite : ∀ a, t.file? archive = some (.archive a) →
      checkMembers t archive destination a.members = .ok () →
      P (writeMembers a.members destination a.members 0 t).1) :
    P (extractFrom t archive destination).1 := by
  unfold extractFrom
  split
  · exact h
  · exact h
  · exact h
  next a ha =>
    split
    · exact h
    next hok =>
      have hw := hwrite a ha hok
      split <;> rename_i hrun <;> rw [hrun] at hw <;> exact hw

end Check

end PluginCatalog
