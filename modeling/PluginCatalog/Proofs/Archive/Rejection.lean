import PluginCatalog.Proofs.Archive.Confinement
import PluginCatalog.Proofs.Execution

/-!
# Archives that are refused

Without links in a file tree a path leads where it says, `..` going back by one name. So the check
of an archive that is unpacked there can be told from the texts in the archive alone.

* `lexical here s` is where a text leads as it is written; `canonical_lexical`: without links this
  is the canonical location.
* `Member.Escapes` says that a member leads out of the directory as it is written, by its name or by
  its link, and `Member.Refused` with which error. `Member.Breaks`: the check comes to a null
  character in the name or target before that. `checkMembers_eq_error_iff`: the first of these
  members ends the check (`Member.Stops`).
* `extract_refuses`: an archive is refused exactly if one of its members escapes and the check gets
  there, on account of the first one that does, and nothing has happened then.
-/

namespace PluginCatalog

open FileTree

variable {σ : Type}

/-! ## Paths as they are written -/

namespace FileTree

/-- No symbolic link is in the tree. -/
def Unlinked (t : FileTree) : Prop := ∀ loc target, t.node? loc ≠ some (.link target)

theorem goAlong_append (here : Location) (names rest : List String) :
    goAlong here (names ++ rest) = goAlong (goAlong here names) rest := by
  induction names generalizing here with
  | nil => rfl
  | cons name names ih => exact ih _

/-- Without links names lead where they say. -/
theorem Unlinked.leads {t : FileTree} (h : t.Unlinked) (here : Location) (names : List String) :
    Leads t here names (goAlong here names) := by
  induction names generalizing here with
  | nil => exact .here here
  | cons name names ih =>
    unfold goAlong
    split
    next hn => exact hn ▸ .up (ih _)
    next hn => exact .step hn (h _) (ih _)

theorem Unlinked.canonical {t : FileTree} (h : t.Unlinked) (p : Path) :
    t.canonical p = .ok (goAlong (origin t.working p) p.parts) :=
  canonical_of_leads (h.leads _ _)

/-- The names of a location lead to it. -/
theorem goAlong_self {loc : Location} (h : ".." ∉ loc) (here : Location) :
    goAlong here loc = here ++ loc := by
  induction loc generalizing here with
  | nil => exact (List.append_nil here).symm
  | cons name loc ih =>
    rw [List.mem_cons, not_or] at h
    obtain ⟨hname, hloc⟩ := h
    rw [goAlong, if_neg fun he => hname he.symm, ih hloc, List.append_assoc, List.singleton_append]

end FileTree

/-- Where a text leads from a directory as it is written: `.` stays, `..` goes back by one name, and
an absolute text begins at the root. -/
def lexical (here : Location) (s : String) : Location :=
  goAlong (origin here (Path.ofText s)) (Path.components s)

section Lexical

variable {t : FileTree} {destination : Path} {root : Location}

/-- **Without links a text leads where it says** from an empty directory. -/
theorem canonical_lexical (hu : t.Unlinked) (hv : Vacant t destination root) (s : String) :
    t.canonical (destination / s) = .ok (lexical root s) :=
  (hv.canonical (hu.leads _ _)).1

/-- A place in the tree holds no `..`. -/
theorem up_not_mem_lexical (hu : t.Unlinked) (hv : Vacant t destination root) (s : String) :
    ".." ∉ lexical root s :=
  (hv.canonical (hu.leads _ _)).2.up

/-- What a relative text leads to from a location is told from the root. -/
theorem canonical_from (hu : t.Unlinked) {here : Location} (hhere : ".." ∉ here) (s : String) :
    t.canonical ((⟨1, here⟩ : Path) / s) = .ok (lexical here s) := by
  have hp : (⟨1, here⟩ : Path) / s = Path.append ⟨1, here⟩ (Path.ofText s) := rfl
  rw [hu.canonical, hp, origin_append]
  unfold lexical Path.append origin
  split
  next h => rfl
  next h =>
    change Except.ok (goAlong [] (here ++ Path.components s)) = _
    rw [goAlong_append, goAlong_self hhere, List.nil_append]

end Lexical

/-! ## Members that lead out -/

namespace Member

/-- The place of a member in a directory, as its name is written. -/
def place (root : Location) (m : Member) : Location := lexical root m.name

/-- The target of a link, and the directory from which it is seen: that of the member for a symbolic
link, the one into which the archive is unpacked for a hard link. -/
def pointer? (root : Location) (m : Member) : Option (String × Location) :=
  match m.kind with
  | .symlink target => some (target, (m.place root).dropLast)
  | .hardlink target => some (target, root)
  | _ => none

/-- The name of a member leads out of the directory. -/
def LandsOutside (root : Location) (m : Member) : Prop := ¬root <+: m.place root

/-- A member is a link that is absolute or leads out of the directory. -/
def PointsOutside (root : Location) (m : Member) : Prop :=
  ∃ target here, m.pointer? root = some (target, here) ∧
    ((Path.ofText target).isAbsolute ∨ ¬root <+: lexical here target)

/-- A member leads out of the directory. -/
def Escapes (root : Location) (m : Member) : Prop := m.LandsOutside root ∨ m.PointsOutside root

/-- The error with which a member that leads out is refused; its name comes before its target. -/
inductive Refused (archive : Path) (root : Location) (m : Member) : ArchiveError → Prop where
  | path (h : m.LandsOutside root) : Refused archive root m (.unsafePath m.name archive)
  | link {target : String} {here : Location} (hin : ¬m.LandsOutside root)
    (hp : m.pointer? root = some (target, here))
    (h : (Path.ofText target).isAbsolute ∨ ¬root <+: lexical here target) :
    Refused archive root m (.unsafeLink m.name target archive)

/-- The check of a member ends at a null character: one in its name, or one in its target when its
name does not lead out. -/
def Breaks (root : Location) (m : Member) : Prop :=
  '\x00' ∈ m.name.toList ∨
    (¬m.LandsOutside root ∧
      ∃ target here, m.pointer? root = some (target, here) ∧ '\x00' ∈ target.toList)

/-- How a member ends the check of an archive: at a null character, or because it leads out. -/
inductive Stops (archive : Path) (root : Location) (m : Member) : Failure → Prop where
  | breaks (h : m.Breaks root) : Stops archive root m (.fault .nullCharacter)
  | refused {cause : ArchiveError} (hb : ¬m.Breaks root) (h : m.Refused archive root cause) :
    Stops archive root m (.archive cause)

variable {archive : Path} {root : Location} {m : Member}

theorem Refused.escapes {cause : ArchiveError} (h : m.Refused archive root cause) :
    m.Escapes root := by
  cases h with
  | path h => exact .inl h
  | link _ hp h => exact .inr ⟨_, _, hp, h⟩

theorem Escapes.refused (h : m.Escapes root) (archive : Path) :
    ∃ cause, m.Refused archive root cause := by
  by_cases hin : m.LandsOutside root
  · exact ⟨_, .path hin⟩
  · obtain ⟨target, here, hp, hout⟩ := h.resolve_left hin
    exact ⟨_, .link hin hp hout⟩

end Member

/-- An archive is refused for what is written in it. -/
def ArchiveError.IsUnsafe : ArchiveError → Prop
  | unsafePath _ _ | unsafeLink _ _ _ => True
  | missing _ | unreadable _ => False

theorem Member.Refused.isUnsafe {archive : Path} {root : Location} {m : Member}
    {cause : ArchiveError} (h : m.Refused archive root cause) : cause.IsUnsafe := by
  cases h <;> trivial

/-- A failure of the check of an archive, before anything is written. -/
def Failure.OfCheck : Failure → Prop
  | archive cause => cause.IsUnsafe
  | fault cause => cause = .nullCharacter
  | _ => False

/-- What hinders a member from being written is no failure of the check. -/
theorem not_ofCheck_obstacle (archive : Path) (obstacle : Obstacle) :
    ¬(obstacle.failure archive).OfCheck := by
  cases obstacle <;> simp [Obstacle.failure, Failure.OfCheck, ArchiveError.IsUnsafe]

/-! ## The check -/

section Check

variable {t : FileTree} {archive destination : Path} {root : Location} {m : Member}

theorem lookUp_of_mem {directory : Path} {name : String} (h : '\x00' ∈ name.toList) :
    lookUp t directory name = .error .nullCharacter := by
  rw [lookUp, if_pos (List.contains_iff_mem.2 h)]

theorem lookUp_of_not_mem (directory : Path) {name : String} (h : '\x00' ∉ name.toList) :
    lookUp t directory name = t.canonical (directory / name) := by
  rw [lookUp, if_neg (mt List.contains_iff_mem.1 h)]

/-- What the check sees of a link is its target as it is written. -/
theorem linkLocation?_eq (hu : t.Unlinked) (hv : Vacant t destination root) (m : Member)
    (hnull : ∀ target here, m.pointer? root = some (target, here) → '\x00' ∉ target.toList) :
    linkLocation? t destination (m.place root) m.kind =
      .ok ((m.pointer? root).map fun (target, here) => (target, lexical here target)) := by
  obtain ⟨name, kind⟩ := m
  cases kind with
  | symlink target =>
    have hhere : ".." ∉ (lexical root name).dropLast := fun h =>
      up_not_mem_lexical hu hv name ((List.dropLast_prefix _).subset h)
    have hseen := lookUp_of_not_mem (t := t) ⟨1, (lexical root name).dropLast⟩ (hnull target _ rfl)
    exact congrArg (· >>= _) (hseen.trans (canonical_from hu hhere target))
  | hardlink target =>
    have hseen := lookUp_of_not_mem (t := t) destination (hnull target _ rfl)
    exact congrArg (· >>= _) (hseen.trans (canonical_lexical hu hv target))
  | file data => rfl
  | directory => rfl
  | fifo => rfl

/-- A target with a null character ends the check. -/
theorem linkLocation?_of_mem {place : Location} {target : String} {here : Location}
    (hp : m.pointer? root = some (target, here)) (h : '\x00' ∈ target.toList) :
    linkLocation? t destination place m.kind = .error .nullCharacter := by
  obtain ⟨name, kind⟩ := m
  cases kind with
  | symlink target' =>
    obtain ⟨rfl, -⟩ := Prod.mk.inj (Option.some.inj hp)
    exact congrArg (· >>= _) (lookUp_of_mem h)
  | hardlink target' =>
    obtain ⟨rfl, -⟩ := Prod.mk.inj (Option.some.inj hp)
    exact congrArg (· >>= _) (lookUp_of_mem h)
  | file data => cases hp
  | directory => cases hp
  | fifo => cases hp

/-- The check of a member with a name that can be looked up, told from what is written in it. -/
theorem checkMember_of_not_mem (hu : t.Unlinked) (hv : Vacant t destination root)
    (hname : '\x00' ∉ m.name.toList) :
    checkMember t archive destination root m = (do
      if !isWithin root (m.place root) then throw (.archive (.unsafePath m.name archive))
      match ← (linkLocation? t destination (m.place root) m.kind).mapError .fault with
      | none => return
      | some (target, loc) =>
        if (Path.ofText target).isAbsolute || !isWithin root loc then
          throw (.archive (.unsafeLink m.name target archive)) : Except Failure Unit) := by
  unfold checkMember
  rw [lookUp_of_not_mem _ hname, canonical_lexical hu hv]
  rfl

theorem isWithin_iff {loc : Location} : isWithin root loc = true ↔ root <+: loc :=
  List.isPrefixOf_iff_prefix

/-- A null character ends the check. -/
theorem checkMember_of_breaks (hu : t.Unlinked) (hv : Vacant t destination root)
    (h : m.Breaks root) :
    checkMember t archive destination root m = .error (.fault .nullCharacter) := by
  by_cases hname : '\x00' ∈ m.name.toList
  · unfold checkMember
    rw [lookUp_of_mem hname]
    rfl
  · obtain ⟨hin, target, here, hp, hnull⟩ := h.resolve_left hname
    rw [checkMember_of_not_mem hu hv hname, isWithin_iff.2 (not_not.1 hin),
      linkLocation?_of_mem hp hnull]
    rfl

/-- The check of a member that it gets through, told from what is written in it. -/
theorem checkMember_eq (hu : t.Unlinked) (hv : Vacant t destination root) (h : ¬m.Breaks root) :
    checkMember t archive destination root m =
      if isWithin root (m.place root) then
        match m.pointer? root with
        | none => .ok ()
        | some (target, here) =>
          if (Path.ofText target).isAbsolute || !isWithin root (lexical here target) then
            .error (.archive (.unsafeLink m.name target archive))
          else .ok ()
      else .error (.archive (.unsafePath m.name archive)) := by
  obtain ⟨hname, htarget⟩ := not_or.1 h
  rw [checkMember_of_not_mem hu hv hname]
  cases hin : isWithin root (m.place root) with
  | false => rfl
  | true =>
    have hnull : ∀ target here, m.pointer? root = some (target, here) → '\x00' ∉ target.toList :=
      fun target here hp hmem =>
        htarget ⟨not_not.2 (isWithin_iff.1 hin), target, here, hp, hmem⟩
    rw [linkLocation?_eq hu hv m hnull]
    cases m.pointer? root <;> rfl

/-- **The check refuses a member** that it gets through exactly if it leads out as it is written. -/
theorem checkMember_eq_error_iff (hu : t.Unlinked) (hv : Vacant t destination root)
    (hb : ¬m.Breaks root) {e : Failure} :
    checkMember t archive destination root m = .error e ↔
      ∃ cause, e = .archive cause ∧ m.Refused archive root cause := by
  rw [checkMember_eq hu hv hb]
  constructor
  · intro h
    split at h
    next hin =>
      have hland : ¬m.LandsOutside root := not_not.2 (isWithin_iff.1 hin)
      split at h
      next => cases h
      next target here hp =>
        split at h
        next hout =>
          rw [Bool.or_eq_true, Bool.not_eq_true', ← Bool.not_eq_true, isWithin_iff] at hout
          exact ⟨_, (Except.error.inj h).symm, .link hland hp hout⟩
        next => cases h
    next hin => exact ⟨_, (Except.error.inj h).symm, .path fun hp => hin (isWithin_iff.2 hp)⟩
  · rintro ⟨cause, rfl, h⟩
    cases h with
    | path h => rw [if_neg fun hin => h (isWithin_iff.1 hin)]
    | @link target here hin hp h =>
      rw [if_pos (isWithin_iff.2 (not_not.1 hin)), hp]
      refine if_pos ?_
      rwa [Bool.or_eq_true, Bool.not_eq_true', ← Bool.not_eq_true, isWithin_iff]

theorem checkMember_eq_ok_iff (hu : t.Unlinked) (hv : Vacant t destination root) :
    checkMember t archive destination root m = .ok () ↔ ¬m.Breaks root ∧ ¬m.Escapes root := by
  by_cases hb : m.Breaks root
  · simp [checkMember_of_breaks hu hv hb, hb]
  · constructor
    · intro hok
      refine ⟨hb, fun h => ?_⟩
      obtain ⟨cause, hc⟩ := h.refused archive
      rw [(checkMember_eq_error_iff hu hv hb).2 ⟨cause, rfl, hc⟩] at hok
      cases hok
    · rintro ⟨-, h⟩
      rcases hr : checkMember t archive destination root m with e | _
      · obtain ⟨cause, -, hc⟩ := (checkMember_eq_error_iff hu hv hb).1 hr
        exact absurd hc.escapes h
      · rfl

/-- The members are checked one after the other. -/
theorem checkMembers_eq (hv : Vacant t destination root) (members : List Member) :
    checkMembers t archive destination members =
      members.forM (checkMember t archive destination root) := by
  have hcanon : t.canonical destination = .ok root :=
    canonical_of_leads (leads_of_follow hv.follow hv.plain)
  unfold checkMembers
  rw [hcanon]
  rfl

/-- **The check of an archive ends** at the first of its members that leads out or has a null
character. -/
theorem checkMembers_eq_error_iff (hu : t.Unlinked) (hv : Vacant t destination root)
    {members : List Member} {e : Failure} :
    checkMembers t archive destination members = .error e ↔
      ∃ before m after, members = before ++ m :: after ∧
        (∀ x ∈ before, ¬x.Breaks root ∧ ¬x.Escapes root) ∧ m.Stops archive root e := by
  have hstops : ∀ m, checkMember t archive destination root m = .error e ↔
      m.Stops archive root e := by
    intro m
    by_cases hb : m.Breaks root
    · rw [checkMember_of_breaks hu hv hb, Except.error.injEq]
      refine ⟨fun he => he ▸ .breaks hb, fun he => ?_⟩
      cases he with
      | breaks => rfl
      | refused hnot => exact absurd hb hnot
    · rw [checkMember_eq_error_iff hu hv hb]
      refine ⟨fun ⟨cause, he, hc⟩ => he ▸ .refused hb hc, fun he => ?_⟩
      cases he with
      | breaks h => exact absurd h hb
      | refused _ hc => exact ⟨_, rfl, hc⟩
  rw [checkMembers_eq hv, forM_eq_error_iff]
  simp only [checkMember_eq_ok_iff hu hv, hstops]

/-- An archive passes the check exactly if no member leads out or has a null character. -/
theorem checkMembers_eq_ok_iff (hu : t.Unlinked) (hv : Vacant t destination root)
    {members : List Member} :
    checkMembers t archive destination members = .ok () ↔
      ∀ m ∈ members, ¬m.Breaks root ∧ ¬m.Escapes root := by
  rw [checkMembers_eq hv, forM_eq_ok_iff]
  simp only [checkMember_eq_ok_iff hu hv]

/-- A member that leads out is refused, or one before it is, if the check gets there. -/
theorem exists_refused (archive : Path) (hu : t.Unlinked) (hv : Vacant t destination root)
    {before : List Member} (after : List Member) (hbefore : ∀ x ∈ before, ¬x.Breaks root)
    (hb : ¬m.Breaks root) (h : m.Escapes root) : ∃ cause, cause.IsUnsafe ∧
      checkMembers t archive destination (before ++ m :: after) = .error (.archive cause) := by
  -- The check of the members up to this one ends in the same way.
  rcases hcheck : checkMembers t archive destination (before ++ [m]) with e | _
  · obtain ⟨front, x, rest, hl, hfront, hstop⟩ := (checkMembers_eq_error_iff hu hv).1 hcheck
    have hmem : x ∈ before ++ [m] := by simp [hl]
    have hx : ¬x.Breaks root := by
      rcases List.mem_append.1 hmem with hx | hx
      · exact hbefore x hx
      · rwa [List.mem_singleton.1 hx]
    cases hstop with
    | breaks hbreaks => exact absurd hbreaks hx
    | refused _ hc =>
      refine ⟨_, hc.isUnsafe, (checkMembers_eq_error_iff hu hv).2
        ⟨front, x, rest ++ after, ?_, hfront, .refused hx hc⟩⟩
      rw [List.append_cons, hl, List.append_assoc, List.cons_append]
  · exact absurd h ((checkMembers_eq_ok_iff hu hv).1 hcheck m (by simp)).2

end Check

/-! ## Extraction -/

section Extraction

variable {w : World σ} {archive destination : Path} {root : Location} {a : Archive}

/-- An archive that does not pass the check is refused, and nothing happens. -/
theorem exec_extract_refused (ha : w.files.file? archive = some (.archive a)) {e : Failure}
    (h : checkMembers w.files archive destination a.members = .error e) :
    (extract archive destination).exec w = (.error e, w) := by
  have hx : extractFrom w.files archive destination = (w.files, .error e) := by
    unfold extractFrom
    rw [ha]
    dsimp only
    rw [h]
  unfold extract
  rw [Run.exec_bind, Run.exec_files]
  dsimp only
  rw [hx]
  rfl

/-- One that passes fails only in being written. -/
theorem not_ofCheck_of_passed (ha : w.files.file? archive = some (.archive a))
    (h : checkMembers w.files archive destination a.members = .ok ()) {e : Failure}
    (hx : ((extract archive destination).exec w).1 = .error e) : ¬e.OfCheck := by
  have hfrom : (extractFrom w.files archive destination).2 = .error e := by
    unfold extract at hx
    rw [Run.exec_bind, Run.exec_files] at hx
    dsimp only at hx
    rw [Run.exec_bind, Run.exec_setFiles] at hx
    dsimp only at hx
    rcases hr : (extractFrom w.files archive destination).2 with e | _ <;> rw [hr] at hx
    · exact hx
    · cases hx
  unfold extractFrom at hfrom
  rw [ha] at hfrom
  dsimp only at hfrom
  rw [h] at hfrom
  dsimp only at hfrom
  split at hfrom
  next => cases hfrom
  next obstacle _ =>
    obtain rfl := Except.error.inj hfrom
    exact not_ofCheck_obstacle archive obstacle

/-- **Archives are refused for what is written in them**: of the ways in which unpacking one into an
empty directory of a tree without links can fail, those of the check are told from the first member
that leads out of the directory as it is written or has a null character. So it fails for a member
that leads out exactly if there is one, with no null character to which the check comes before; and
nothing has been written then, and the directory is still empty. -/
theorem extract_refuses (hu : w.files.Unlinked) (hv : Vacant w.files destination root)
    (ha : w.files.file? archive = some (.archive a)) :
    let r := (extract archive destination).exec w
    ((∃ cause, cause.IsUnsafe ∧ r.1 = .error (.archive cause)) ↔
        ∃ before m after, a.members = before ++ m :: after ∧ (∀ x ∈ before, ¬x.Breaks root) ∧
          ¬m.Breaks root ∧ m.Escapes root) ∧
      (∀ e, e.OfCheck → (r.1 = .error e ↔ ∃ before m after, a.members = before ++ m :: after ∧
        (∀ x ∈ before, ¬x.Breaks root ∧ ¬x.Escapes root) ∧ m.Stops archive root e)) ∧
      ∀ e, e.OfCheck → r.1 = .error e →
        r.2 = w ∧ ∀ loc, root <+: loc → loc ≠ root → r.2.files.node? loc = none := by
  intro r
  have hfirst : ∀ e, e.OfCheck → (r.1 = .error e ↔
      checkMembers w.files archive destination a.members = .error e) := by
    intro e he
    refine ⟨fun hx => ?_, fun hcheck => by rw [show r = _ from exec_extract_refused ha hcheck]⟩
    rcases hcheck : checkMembers w.files archive destination a.members with e' | _
    · have hr : r = (.error e', w) := exec_extract_refused ha hcheck
      rwa [hr] at hx
    · exact absurd he (not_ofCheck_of_passed ha hcheck hx)
  refine ⟨?_, fun e he => (hfirst e he).trans (checkMembers_eq_error_iff hu hv), fun e he hx => ?_⟩
  · constructor
    · rintro ⟨cause, hc, hx⟩
      obtain ⟨before, m, after, hl, hbefore, hstop⟩ :=
        (checkMembers_eq_error_iff hu hv).1 ((hfirst (.archive cause) hc).1 hx)
      cases hstop with
      | refused hb h =>
        exact ⟨before, m, after, hl, fun x hx => (hbefore x hx).1, hb, h.escapes⟩
    · rintro ⟨before, m, after, hl, hbefore, hb, h⟩
      obtain ⟨cause, hc, hcheck⟩ := exists_refused archive hu hv after hbefore hb h
      exact ⟨cause, hc, (hfirst (.archive cause) hc).2 (hl ▸ hcheck)⟩
  · have hr : r = (.error e, w) := exec_extract_refused ha ((hfirst e he).1 hx)
    rw [hr]
    exact ⟨rfl, hv.empty⟩

end Extraction

/-- A name that leaves the directory and comes back, a link beside the directory, and a name that
goes on like that of the directory. -/
def escapingMembers : List Member :=
  [⟨"../out/lib/a", .file (.text "a")⟩, ⟨"lib/now", .symlink "../../b.tar"⟩,
    ⟨"../outer", .directory⟩]

theorem unlinked_besideArchive (members : List Member) : (besideArchive members).Unlinked := by
  intro loc target h
  have hmem := mem_entries_of_node? (by rintro rfl; cases h) h
  simp [besideArchive] at hmem

/-- The archive is refused for its link. -/
theorem extract_refuses_link :
    let w : World Unit := ⟨besideArchive escapingMembers, [], ()⟩
    let r := (extract "b.tar" "out").exec w
    r.1 = .error (.archive (.unsafeLink "lib/now" "../../b.tar" "b.tar")) ∧ r.2 = w ∧
      ∃ m ∈ escapingMembers, m.Escapes ["out"] := by
  intro w r
  have hu : w.files.Unlinked := unlinked_besideArchive escapingMembers
  have hr : r.1 = .error (.archive (.unsafeLink "lib/now" "../../b.tar" "b.tar")) := by
    decide +kernel
  have ha : w.files.file? "b.tar" = some (.archive ⟨false, escapingMembers⟩) := rfl
  have hunsafe : (ArchiveError.unsafeLink "lib/now" "../../b.tar" "b.tar").IsUnsafe := trivial
  have hcheck : (Failure.archive (.unsafeLink "lib/now" "../../b.tar" "b.tar")).OfCheck := hunsafe
  obtain ⟨hiff, -, hnothing⟩ := extract_refuses hu (vacant_besideArchive escapingMembers) ha
  obtain ⟨before, m, after, hl, -, -, hesc⟩ := hiff.1 ⟨_, hunsafe, hr⟩
  have hm : m ∈ escapingMembers := by
    rw [show escapingMembers = _ from hl]
    simp
  exact ⟨hr, (hnothing _ hcheck hr).1, m, hm, hesc⟩

/-- A member whose name ends with a null character, before one that leads out. -/
def brokenMembers : List Member := [⟨"a\x00", .file (.text "a")⟩, ⟨"../x", .file (.text "x")⟩]

/-- **Not every archive with a member that leads out is refused for it**: the check ends with a
fault at the null character before. -/
theorem extract_breaks_off :
    let w : World Unit := ⟨besideArchive brokenMembers, [], ()⟩
    w.files.Unlinked ∧ Vacant w.files "out" ["out"] ∧ (∃ m ∈ brokenMembers, m.Escapes ["out"]) ∧
      ((extract "b.tar" "out").exec w).1 = .error (.fault .nullCharacter) := by
  refine ⟨unlinked_besideArchive _, vacant_besideArchive _, ⟨_, List.mem_cons_of_mem _
    List.mem_cons_self, .inl ?_⟩, by decide +kernel⟩
  rw [Member.LandsOutside]
  decide +kernel

end PluginCatalog
