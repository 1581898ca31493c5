import PluginCatalog.Archive.Extraction
import PluginCatalog.Proofs.FileTree.FillingSteps

/-!
# Writing the members of an archive

`Site.Accepts k destination members` collects what makes the members of an archive safe to be
written into a directory: their names have ways into it, the links among them are made at direct
paths with targets in it, and hard links have direct sources that are no links.

* `Site.Filled.writeMember`: a member that is no symbolic link is written into the directory, at
  whatever path with a way into it.
* `Site.Filled.writeLink`: a symbolic link is made at its own path. Where it cannot be made
  although it has a target, nothing else can be written either, so that the member to which it
  points does not come there in its place.
* `Site.Filled.writeMembers`: whether it succeeds or not, writing all members leaves a tree in which
  the directory is filled.
-/

namespace PluginCatalog

open FileTree

/-! ## Single changes -/

theorem Written.of_fst {P : FileTree → Prop} {t : FileTree} {r : Except FileFault FileTree}
    (h : P t) (hr : ∀ t', r = .ok t' → P t') : P (Written.of t r).1 := by
  cases r with
  | error e => exact h
  | ok t' => exact hr t' rfl

theorem Written.orElse_fst {P : FileTree → Prop} {w : Written} {instead : FileTree → Written}
    (hw : P w.1) (hi : ∀ t, P t → P (instead t).1) : P (w.orElse instead).1 := by
  unfold Written.orElse
  split
  · exact hi _ hw
  · exact hw

theorem makeOrKeep_fst {P : FileTree → Prop} {t : FileTree} {p : Path} (h : P t)
    (hr : ∀ t', t.makeDirectory p = .ok t' → P t') : P (makeOrKeep t p).1 := by
  unfold makeOrKeep
  split
  · exact h
  · exact Written.of_fst h hr

theorem Written.leavingOut_fst (w : Written) : w.leavingOut.1 = w.1 := by
  unfold Written.leavingOut
  split <;> rfl

theorem writeInstead_fst {P : FileTree → Prop} {write : Nat → FileTree → Written} {t : FileTree}
    {other : Option Nat} (h : P t) (hw : ∀ j, other = some j → P (write j t).1) :
    P (writeInstead write other t).1 := by
  cases other with
  | none => exact h
  | some j =>
    rw [writeInstead, Written.leavingOut_fst]
    exact hw j rfl

/-- The directories above a path are not made again. -/
theorem makeAbove_again {t t₁ : FileTree} {p : Path} (h : makeAbove t p = (t₁, .ok ())) :
    (makeAbove t₁ p).1 = t₁ := by
  unfold makeAbove at h
  split at h
  next hcond =>
    obtain rfl := (Prod.mk.inj h).1
    unfold makeAbove
    rw [if_pos hcond]
  next =>
    have hagain : (t₁.makeWay p.parent).1 = t₁ := by
      rcases hway : t.makeWay p.parent with ⟨t', e | _⟩
      · rw [hway] at h
        cases (Prod.mk.inj h).2
      · rw [hway] at h
        obtain rfl : t' = t₁ := (Prod.mk.inj h).1
        exact makeWayReversed_again hway (.inl rfl)
    unfold makeAbove
    split
    · rfl
    · rcases hway : t₁.makeWay p.parent with ⟨t', e | _⟩ <;> rw [hway] at hagain <;> exact hagain

section Writing

variable {members : List Member} {destination p : Path} {turn : Nat}

/-- **What writing a member keeps**: a property of trees that every single change at the path keeps,
for the members among which the links lead. -/
theorem writeMember_keeps (P : FileTree → Prop) (good : Nat → Prop)
    (habove : ∀ t, P t → P (makeAbove t p).1)
    (hfile : ∀ t content t', P t → t.write p content = .ok t' → P t')
    (hdirectory : ∀ t t', P t → t.makeDirectory p = .ok t' → P t')
    (hfifo : ∀ t t', P t → t.make p .special = .ok t' → P t')
    (hsymlink : ∀ j name target t, good j → members[j]? = some ⟨name, .symlink target⟩ → P t →
      P (replaceByLink t target p).1)
    (hhardlink : ∀ j name target t t', good j → members[j]? = some ⟨name, .hardlink target⟩ → P t →
      t.makeHardLink (destination.append (Path.ofTextDotted target)) p = .ok t' → P t')
    (hnext : ∀ j j', good j → linkTarget? members j = some j' → good j')
    {fuel j : Nat} {t : FileTree} (hj : good j) (h : P t) :
    P (writeMember members destination turn fuel j p t).1 := by
  induction fuel generalizing j t with
  | zero => exact h
  | succ fuel ih =>
    have hup := habove t h
    unfold writeMember
    split
    next t₁ e hr =>
      rw [hr] at hup
      exact hup
    next t₁ hr =>
      rw [hr] at hup
      have hinstead : ∀ t, P t →
          P (writeInstead (fun j' t => writeMember members destination turn fuel j' p t)
            (linkTarget? members j) t).1 :=
        fun t ht => writeInstead_fst ht fun j' hj' => ih (hnext j j' hj hj') ht
      dsimp only
      split
      next => exact hup
      next data _ => exact Written.of_fst hup fun t' hm => hfile t₁ _ t' hup hm
      next => exact makeOrKeep_fst hup fun t' hm => hdirectory t₁ t' hup hm
      next => exact Written.of_fst hup fun t' hm => hfifo t₁ t' hup hm
      next target hkind =>
        obtain ⟨⟨name, -⟩, hm, rfl⟩ := Option.map_eq_some_iff.1 hkind
        exact Written.orElse_fst (hsymlink j name target t₁ hj hm hup) hinstead
      next target hkind =>
        obtain ⟨⟨name, -⟩, hm, rfl⟩ := Option.map_eq_some_iff.1 hkind
        split
        · exact hinstead t₁ hup
        split
        · refine Written.orElse_fst (Written.of_fst hup fun t' hmake => ?_) hinstead
          exact hhardlink j name target t₁ t' hj hm hup hmake
        split
        next j' hj' =>
          exact Written.orElse_fst (ih (hnext j j' hj hj') hup) hinstead
        next => exact hup

/-- **What writing all members keeps**, if writing each one of them does. -/
theorem writeMembers_keeps {P : FileTree → Prop} {rest : List Member} {i : Nat} {t : FileTree}
    (hone : ∀ i m t, members[i]? = some m → P t → P (writeMember members destination i
      (members.length + 1) i (destination.append (Path.ofTextDotted m.name)) t).1)
    (hrest : members.drop i = rest) (h : P t) :
    P (writeMembers members destination rest i t).1 := by
  induction rest generalizing i t with
  | nil => exact h
  | cons m rest ih =>
    have hm : members[i]? = some m := by
      rw [← List.head?_drop, hrest, List.head?_cons]
    have hnext : members.drop (i + 1) = rest := by
      rw [← List.tail_drop, hrest, List.tail_cons]
    have hfirst := hone i m t hm h
    unfold writeMembers
    dsimp only
    split
    next t₁ hr =>
      rw [hr] at hfirst
      exact ih hnext hfirst
    next t₁ hr =>
      rw [hr] at hfirst
      exact ih hnext hfirst
    next => exact hfirst

/-- A link at a blocked path is not made. -/
theorem replaceByLink_blocked {t : FileTree} (h : t.Blocked p) (target : String) :
    (replaceByLink t target p).1 = t := by
  obtain ⟨e, hu⟩ := h.unlink
  obtain ⟨e', hl⟩ := h.makeLink target
  unfold replaceByLink
  rw [hu, hl]
  split <;> rfl

/-- At a blocked path no member is written. -/
theorem writeMember_blocked {t : FileTree} (h : t.Blocked p) (habove : (makeAbove t p).1 = t)
    (fuel j : Nat) : (writeMember members destination turn fuel j p t).1 = t := by
  refine writeMember_keeps (· = t) (fun _ => True) ?_ ?_ ?_ ?_ ?_ ?_ (by simp) trivial rfl
  · rintro t' rfl
    exact habove
  · rintro t' content t'' rfl hm
    obtain ⟨e, he⟩ := h.write content
    rw [he] at hm
    cases hm
  · rintro t' t'' rfl hm
    obtain ⟨e, he⟩ := h.make .directory
    rw [makeDirectory, he] at hm
    cases hm
  · rintro t' t'' rfl hm
    obtain ⟨e, he⟩ := h.make .special
    rw [he] at hm
    cases hm
  · rintro j name target t' - - rfl
    exact replaceByLink_blocked h target
  · rintro j name target t' t'' - - rfl hm
    obtain ⟨e, he⟩ := h.makeHardLink (destination.append (Path.ofTextDotted target))
    rw [he] at hm
    cases hm

end Writing

namespace Site

variable {k : Site} {t : FileTree} {members : List Member} {destination p : Path}

/-- What makes the members of an archive safe to be written into the directory. -/
structure Accepts (k : Site) (destination : Path) (members : List Member) : Prop where
  /-- Names lead into the directory. -/
  names : ∀ m ∈ members, k.Enters (destination.append (Path.ofTextDotted m.name))
  /-- A symbolic link is made where it is judged. -/
  symlinks : ∀ m ∈ members, ∀ target, m.kind = .symlink target →
    k.Direct (k.Leash target) (destination.append (Path.ofTextDotted m.name))
  /-- No symbolic link gets a second name. -/
  hardlinks : ∀ m ∈ members, ∀ target, m.kind = .hardlink target →
    k.Direct (fun loc => ¬k.made loc) (destination.append (Path.ofTextDotted target))
  /-- No symbolic link is written in the place of a hard link or of a link without target. -/
  copies : ∀ i j m, members[i]? = some m → (∀ target, m.kind = .symlink target → target = "") →
    linkTarget? members i = some j → ∀ name target, members[j]? ≠ some ⟨name, .symlink target⟩

namespace Filled

theorem makeAbove (hf : k.Filled t) (hk : k.Fresh) (hp : k.Enters p) :
    k.Filled (PluginCatalog.makeAbove t p).1 := by
  have hway : k.Filled (t.makeWay p.parent).1 := by
    unfold FileTree.makeWay
    rw [Path.parent]
    obtain ⟨more, hmore⟩ : ∃ more, p.parts.dropLast ++ more = p.parts :=
      List.dropLast_prefix p.parts
    rw [← List.reverse_reverse p.parts.dropLast] at hmore
    exact hf.makeWayReversed hk hp hmore
  unfold PluginCatalog.makeAbove
  split
  · exact hf
  · rcases hrun : t.makeWay p.parent with ⟨t₁, e | _⟩ <;> rw [hrun] at hway <;> exact hway

/-- **A symbolic link replaces** what is at a direct path, or it has no target, or nothing can be
written there. -/
theorem replaceByLink (hf : k.Filled t) (hk : k.Fresh) {target : String}
    (hp : k.Direct (k.Leash target) p) :
    k.Filled (PluginCatalog.replaceByLink t target p).1 ∧
      ((PluginCatalog.replaceByLink t target p).2 = .ok () ∨ target = "" ∨
        (PluginCatalog.replaceByLink t target p).1 = t ∧ t.Blocked p) := by
  unfold PluginCatalog.replaceByLink
  rcases hspot : t.locate p with e | ⟨loc, node⟩ | loc
  · have hb := Blocked.of_error hspot
    obtain ⟨e', he⟩ := hb.makeLink target
    simp only [he, Written.of]
    exact ⟨hf, .inr (.inr ⟨trivial, hb⟩)⟩
  · dsimp only
    rcases hu : t.unlink p with e | t'
    · exact ⟨hf, .inr (.inr ⟨rfl, .of_unlink hspot hu⟩)⟩
    have hf' := hf.unlink hk hp hu
    refine ⟨Written.of_fst hf' fun t'' hm => hf'.makeLink hk hp hm, ?_⟩
    by_cases ht : target = ""
    · exact .inr (.inl ht)
    · -- The place is free once what is there was removed.
      obtain ⟨loc', node', hspot', hd, rfl⟩ := unlink_inv hu
      have hm := makeLink_of_free ht (hf.locate_erase hk hp hd hspot')
      simp only [hm, Written.of, true_or]
  · refine ⟨Written.of_fst hf fun t'' hm => hf.makeLink hk hp hm, ?_⟩
    by_cases ht : target = ""
    · exact .inr (.inl ht)
    · rw [makeLink_of_free ht hspot]
      exact .inl rfl

/-- **A member is written** at a path into the directory, if it is no symbolic link. -/
theorem writeMember (hf : k.Filled t) (hk : k.Fresh) (ha : k.Accepts destination members)
    (hp : k.Enters p) {turn fuel j : Nat}
    (hj : ∀ name target, members[j]? ≠ some ⟨name, .symlink target⟩) :
    k.Filled (PluginCatalog.writeMember members destination turn fuel j p t).1 := by
  refine writeMember_keeps k.Filled
    (fun j => ∀ name target, members[j]? ≠ some ⟨name, .symlink target⟩) ?_ ?_ ?_ ?_ ?_ ?_ ?_ hj hf
  · exact fun t hf => hf.makeAbove hk hp
  · exact fun t content t' hf h => hf.write hk hp h
  · exact fun t t' hf h => hf.make hk hp fits_directory h
  · exact fun t t' hf h => hf.make hk hp fits_special h
  · exact fun j name target t hj hm => absurd hm (hj name target)
  · intro j name target t t' _ hm hf h
    exact hf.makeHardLink hk (ha.hardlinks _ (List.mem_of_getElem? hm) target rfl) hp h
  · intro j j' hj hnext
    unfold linkTarget? at hnext
    split at hnext
    next name target hm =>
      refine ha.copies j j' _ hm nofun ?_
      unfold linkTarget?
      rw [hm]
      exact hnext
    next name target hm => exact absurd hm (hj name target)
    next => cases hnext

/-- **A symbolic link is written** at its own path. -/
theorem writeLink (hf : k.Filled t) (hk : k.Fresh) (ha : k.Accepts destination members)
    {turn fuel i : Nat} {name target : String}
    (hm : members[i]? = some ⟨name, .symlink target⟩) (hp : k.Enters p)
    (hd : k.Direct (k.Leash target) p) :
    k.Filled (PluginCatalog.writeMember members destination turn fuel i p t).1 := by
  cases fuel with
  | zero => exact hf
  | succ fuel =>
    have hup := hf.makeAbove hk hp
    unfold PluginCatalog.writeMember
    split
    next t₁ e hr =>
      rw [hr] at hup
      exact hup
    next t₁ hr =>
      rw [hr] at hup
      have hkind : members[i]?.map Member.kind = some (.symlink target) := by rw [hm]; rfl
      simp only [hkind]
      have hagain := makeAbove_again hr
      obtain ⟨hlink, hdone⟩ := hup.replaceByLink hk hd
      generalize PluginCatalog.replaceByLink t₁ target p = w at hlink hdone
      obtain ⟨t₂, r⟩ := w
      rcases hdone with rfl | rfl | ⟨rfl, hb⟩
      · exact hlink
      · refine Written.orElse_fst hlink fun t' hf' => writeInstead_fst hf' fun j hj => ?_
        refine hf'.writeMember hk ha hp (ha.copies i j _ hm ?_ hj)
        rintro target he
        exact (MemberKind.symlink.inj he).symm
      · -- Nothing can be written there, so that the second attempt changes nothing either.
        have hinstead : ∀ j,
            (PluginCatalog.writeMember members destination turn fuel j p t₂).1 = t₂ :=
          writeMember_blocked hb hagain fuel
        refine Eq.subst (motive := k.Filled) (Eq.symm ?_) hup
        refine Written.orElse_fst (P := (· = t₂)) rfl ?_
        rintro t' rfl
        exact writeInstead_fst (P := (· = t')) rfl fun j _ => hinstead j

/-- **All members are written** into the directory. -/
theorem writeMembers (hf : k.Filled t) (hk : k.Fresh) (ha : k.Accepts destination members)
    {rest : List Member} {i : Nat} (hrest : members.drop i = rest) :
    k.Filled (PluginCatalog.writeMembers members destination rest i t).1 := by
  refine writeMembers_keeps (P := k.Filled) (fun i m t hm hf => ?_) hrest hf
  obtain ⟨name, kind⟩ := m
  have hmem := List.mem_of_getElem? hm
  have hp := ha.names _ hmem
  by_cases hkind : ∃ target, kind = .symlink target
  · obtain ⟨target, rfl⟩ := hkind
    exact hf.writeLink hk ha hm hp (ha.symlinks _ hmem target rfl)
  · refine hf.writeMember hk ha hp fun name' target h => hkind ⟨target, ?_⟩
    exact (Member.mk.inj (Option.some.inj (hm.symm.trans h))).2

end Filled

end Site

end PluginCatalog
