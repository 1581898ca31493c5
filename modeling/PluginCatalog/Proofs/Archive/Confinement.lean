import PluginCatalog.Proofs.Archive.Members
import PluginCatalog.Proofs.Archive.Safety

/-!
# Extraction stays in its directory

Members are judged one by one before anything is written, so that an archive can lead out of the
directory by links that it makes itself: `..` after such a link goes up from where the link leads.

* `Untangled` are the archives whose names and targets take no `..` after a link of the archive,
  pass only what exists outside of the directory, and give no link a second place.
* `extractFrom_confined`: whether it succeeds or not, the extraction of such an archive changes
  nothing outside of the directory, and leaves no link in it that leads out (`Confined`).
* `extractFrom_not_confined`: other archives pass the check too.
-/

namespace PluginCatalog

open FileTree

/-- Nothing outside of a directory has changed, and no link in it leads out. -/
structure Confined (before after : FileTree) (root : Location) : Prop where
  outside : ∀ loc, ¬(root <+: loc ∧ loc ≠ root) → after.node? loc = before.node? loc
  links : ∀ loc target l, root <+: loc → loc ≠ root → after.node? loc = some (.link target) →
    Leads after (origin loc.dropLast (Path.ofText target)) (Path.components target) l → root <+: l

/-! ## Archives that are judged right -/

/-- The directory into which an archive is unpacked, with the locations at which the check sees its
links; a way passes what exists. -/
def archiveSite (t : FileTree) (destination : Path) (root : Location) (members : List Member) :
    Site where
  tree := t
  root := root
  made loc := loc ≠ root ∧ ∃ m ∈ members, (∃ target, m.kind = .symlink target) ∧
    t.canonical (destination / m.name) = .ok loc
  solid loc := t.node? loc ≠ none

/-- A text names a place in the directory that is reached without links that are made. -/
def Site.Names (k : Site) (ends : Location → Prop) (s : String) : Prop :=
  ∃ front name, Path.components s = front ++ [name] ∧ (IsName name →
    k.Way false (fun dir => k.Inside dir ∧ ends (dir ++ [name])) (origin k.root (Path.ofText s))
      front)

/-- No name and no target in an archive takes `..` after a link of the archive, links are made and
found without such links on the way, and none is written in a second place. -/
structure Untangled (k : Site) (members : List Member) : Prop where
  names : ∀ m ∈ members, k.Way true (fun _ => True) (origin k.root (Path.ofText m.name))
    (Path.components m.name)
  symlinks : ∀ m ∈ members, ∀ target, m.kind = .symlink target →
    k.Names (fun loc => k.Way true (fun _ => True) loc.dropLast (Path.components target)) m.name
  hardlinks : ∀ m ∈ members, ∀ target, m.kind = .hardlink target →
    k.Names (fun loc => ¬k.made loc) target
  copies : ∀ i j m, members[i]? = some m → (∀ target, m.kind = .symlink target → target = "") →
    linkTarget? members i = some j → ∀ name target, members[j]? ≠ some ⟨name, .symlink target⟩

namespace Site

variable {k : Site} {destination : Path}

/-! ## Paths from the directory -/

theorem pathWay_append (hk : k.Fresh) (hsolid : ∀ loc, k.tree.node? loc ≠ none → k.solid loc)
    (hroot : k.tree.follow destination = .ok (.taken k.root .directory)) {through : Bool}
    {ends : Location → Prop} {q : Path} (hw : k.Way through ends (origin k.root q) q.parts) :
    k.PathWay through ends (destination.append q) := by
  unfold PathWay
  rw [origin_append]
  unfold origin at hw
  unfold Path.append
  split at hw
  next h =>
    rw [if_pos h, origin, if_pos h]
    exact hw
  next h =>
    rw [if_neg h, origin, if_neg h]
    exact hk.way_of_reaches hsolid (reaches_of_follow hroot) hw

theorem append_concat (p : Path) (slashes : Nat) (front : List String) (name : String) :
    (p.append ⟨slashes, front ++ [name]⟩).parts = (p.append ⟨slashes, front⟩).parts ++ [name] := by
  unfold Path.append
  cases hs : (⟨slashes, front⟩ : Path).isAbsolute with
  | false => simp [show (⟨slashes, front ++ [name]⟩ : Path).isAbsolute = false from hs]
  | true => simp [show (⟨slashes, front ++ [name]⟩ : Path).isAbsolute = true from hs]

theorem leads_append (hroot : k.tree.follow destination = .ok (.taken k.root .directory))
    (hdot : "." ∉ destination.parts) {q : Path} {l : Location}
    (h : Leads k.tree (origin k.root q) q.parts l) :
    Leads k.tree (origin k.tree.working (destination.append q)) (destination.append q).parts l := by
  rw [origin_append]
  unfold origin at h
  unfold Path.append
  split at h
  next habs =>
    rw [if_pos habs, origin, if_pos habs]
    exact h
  next habs =>
    rw [if_neg habs, origin, if_neg habs]
    exact (leads_of_follow hroot hdot).append h

/-- A path with `.` in it is direct where one without is. -/
theorem Names.direct (hk : k.Fresh) (hsolid : ∀ loc, k.tree.node? loc ≠ none → k.solid loc)
    (hroot : k.tree.follow destination = .ok (.taken k.root .directory)) {ends : Location → Prop}
    {s : String} (h : k.Names ends s) :
    k.Direct ends (destination.append (Path.ofTextDotted s)) := by
  obtain ⟨front, name, hparts, hway⟩ := h
  have hdotted := filter_ofTextDotted s
  rcases List.eq_nil_or_concat (Path.ofTextDotted s).parts with hnil | ⟨front', name', hconcat⟩
  · simp [hnil, hparts] at hdotted
  rw [List.concat_eq_append] at hconcat
  have hq : Path.ofTextDotted s = ⟨(Path.ofText s).slashes, front' ++ [name']⟩ := by
    rw [← hconcat]
    rfl
  rw [hq]
  refine ⟨_, name', append_concat _ _ _ _, fun hn => ?_⟩
  -- A last component that is a name is the same with and without `.`.
  have hlast : front'.filter (· != ".") ++ [name'] = front ++ [name] := by
    rw [← hparts, ← hdotted, hconcat, List.filter_append]
    simp [hn.1]
  obtain ⟨hfront, hname⟩ := List.append_inj' hlast rfl
  obtain rfl := List.singleton_inj.1 hname
  have hw := pathWay_append hk hsolid hroot (q := ⟨(Path.ofText s).slashes, front'⟩)
    ((hway hn).dotted hfront)
  unfold PathWay at hw
  rw [origin_append] at hw ⊢
  exact hw

/-- What is said of the places that a text names may be said of where it leads. -/
theorem Names.of_leads (hk : k.Fresh) {ends ends' : Location → Prop} {s : String}
    (h : k.Names ends s)
    (hends : ∀ loc, k.Below loc →
      Leads k.tree (origin k.root (Path.ofText s)) (Path.components s) loc → ends loc → ends' loc) :
    k.Names ends' s := by
  obtain ⟨front, name, hparts, hway⟩ := h
  refine ⟨front, name, hparts, fun hn => ?_⟩
  have hdot : "." ∉ front := fun hm =>
    Path.dot_not_mem_components s (hparts ▸ List.mem_append_left _ hm)
  obtain ⟨dir, hlead, hw, hdir⟩ := hk.leads_of_way (hway hn) hdot
  obtain ⟨hin, he⟩ := hdir rfl
  refine hw.mono ?_
  rintro dir' rfl
  refine ⟨hin, hends _ (hin.below name) ?_ he⟩
  rw [hparts]
  refine hlead.append (.step hn.2 ?_ (.here _))
  simp [hk.empty _ (hin.below name)]

end Site

/-! ## The theorem -/

/-- A path leads to a directory with nothing in it; the working directory, from which it may be
seen, is one that is reached without links. -/
structure Vacant (t : FileTree) (destination : Path) (root : Location) : Prop where
  plain : "." ∉ destination.parts
  working : Settled t t.working
  follow : t.follow destination = .ok (.taken root .directory)
  directory : t.node? root = some .directory
  empty : ∀ loc, root <+: loc → loc ≠ root → t.node? loc = none

section Judged

variable {t : FileTree} {archive destination : Path} {root : Location} {members : List Member}

theorem Vacant.fresh (hv : Vacant t destination root)
    (hcheck : ∀ m ∈ members, checkMember t archive destination root m = .ok ()) :
    (archiveSite t destination root members).Fresh where
  directory := hv.directory
  empty loc hb := hv.empty loc hb.1 hb.2
  made := by
    rintro loc ⟨hne, m, hm, -, hcanon⟩
    obtain ⟨place, hplace, hin, -⟩ := place_of_checkMember (hcheck m hm)
    obtain rfl : place = loc := Except.ok.inj (hplace.symm.trans hcanon)
    exact ⟨hin, hne⟩

/-- Where a name leads from the directory is the place that is judged. -/
theorem Vacant.canonical (hv : Vacant t destination root) {name : String} {l : Location}
    (h : Leads t (origin root (Path.ofText name)) (Path.components name) l) :
    t.canonical (destination / name) = .ok l ∧ Settled t l := by
  have hl := Site.leads_append (k := archiveSite t destination root []) hv.follow hv.plain
    (q := Path.ofText name) h
  refine ⟨canonical_of_leads hl, hl.settled ?_⟩
  unfold origin
  split
  · exact settled_nil t
  · exact hv.working

/-- **What passes the check and is not tangled may be written.** -/
theorem Untangled.accepts (hv : Vacant t destination root)
    (hu : Untangled (archiveSite t destination root members) members)
    (hcheck : ∀ m ∈ members, checkMember t archive destination root m = .ok ()) :
    (archiveSite t destination root members).Accepts destination members where
  names m hm := by
    have hk := hv.fresh hcheck
    obtain ⟨l, hlead, hw, -⟩ := hk.leads_of_way (hu.names m hm) (Path.dot_not_mem_components _)
    obtain ⟨place, hplace, hin, -⟩ := place_of_checkMember (hcheck m hm)
    obtain rfl : place = l := Except.ok.inj (hplace.symm.trans (hv.canonical hlead).1)
    refine (Site.pathWay_append hk (fun _ h => h) hv.follow ?_).enters hk
    refine (hw.mono ?_).dotted (filter_ofTextDotted m.name)
    rintro loc rfl
    exact hin
  symlinks m hm target hkind := by
    have hk := hv.fresh hcheck
    have hn := hu.symlinks m hm target hkind
    refine (hn.of_leads hk fun loc hb hlead hway => ?_).direct hk (fun _ h => h) hv.follow
    obtain ⟨hcanon, hs⟩ := hv.canonical hlead
    obtain ⟨l, hl, hw, -⟩ := hk.leads_of_way hway (Path.dot_not_mem_components _)
    obtain ⟨hrel, hin⟩ := target_of_checkMember (hcheck m hm) hkind hcanon
      (hs.of_prefix (List.dropLast_prefix loc)) hl
    refine ⟨⟨hb.2, m, hm, ⟨target, hkind⟩, hcanon⟩, hrel, hw.mono ?_⟩
    rintro loc' rfl
    exact hin
  hardlinks m hm target hkind :=
    (hu.hardlinks m hm target hkind).direct (hv.fresh hcheck) (fun _ h => h) hv.follow
  copies := hu.copies

/-- **Extraction stays in its directory**: unless names and targets in the archive take `..` after
links of the archive, or its links get a second place. -/
theorem extractFrom_confined (hv : Vacant t destination root)
    (hu : ∀ a, t.file? archive = some (.archive a) →
      Untangled (archiveSite t destination root a.members) a.members) :
    Confined t (extractFrom t archive destination).1 root := by
  have hsame : Confined t t root := by
    refine ⟨fun _ _ => rfl, fun loc target l hin hne hnode => ?_⟩
    rw [hv.empty loc hin hne] at hnode
    cases hnode
  refine extractFrom_fst (P := fun t' => Confined t t' root) hsame fun a ha hok => ?_
  have hcheck := checkMember_of_checkMembers
    (canonical_of_leads (leads_of_follow hv.follow hv.plain)) hok
  have hk := hv.fresh hcheck
  have hf : (archiveSite t destination root a.members).Filled
      (writeMembers a.members destination a.members 0 t).1 :=
    hk.filled.writeMembers hk ((hu a ha).accepts hv hcheck) rfl
  refine ⟨fun loc hloc => ?_, fun loc target l hin hne hnode hl => ?_⟩
  · rcases hf.outside loc hloc with h | ⟨hs, hn, -⟩
    · exact h
    · exact absurd hn hs
  · exact hf.inside_of_link hk ⟨hin, hne⟩ hnode hl

end Judged

/-- An archive beside an empty directory. -/
def besideArchive (members : List Member) : FileTree :=
  ⟨[], [(["out"], .directory), (["b.tar"], .file 0 (.archive ⟨false, members⟩))]⟩

theorem vacant_besideArchive (members : List Member) :
    Vacant (besideArchive members) "out" ["out"] where
  plain := Path.dot_not_mem_components "out"
  working := settled_nil _
  follow := rfl
  directory := rfl
  empty := by
    rintro loc ⟨rest, rfl⟩ hne
    cases rest with
    | nil => exact absurd rfl hne
    | cons name rest => rfl

/-- Files and links that stay in a directory; files are written through a link to their directory.
-/
def linkedMembers : List Member :=
  [⟨"lib/a", .file (.text "a")⟩, ⟨"now", .symlink "lib"⟩, ⟨"now/b", .file (.text "b")⟩,
    ⟨"c", .hardlink "lib/a"⟩]

theorem untangled_linkedMembers :
    Untangled (archiveSite (besideArchive linkedMembers) "out" ["out"] linkedMembers)
      linkedMembers := by
  let k := archiveSite (besideArchive linkedMembers) "out" ["out"] linkedMembers
  have hcheck : ∀ m ∈ linkedMembers,
      checkMember (besideArchive linkedMembers) "b.tar" "out" ["out"] m = .ok () := by
    simp only [linkedMembers, List.forall_mem_cons]
    exact ⟨rfl, rfl, rfl, rfl, nofun⟩
  have hk : k.Fresh := (vacant_besideArchive linkedMembers).fresh hcheck
  have hroot : k.Inside ["out"] := List.prefix_rfl
  have hmade : ¬k.made ["out", "lib"] ∧ ¬k.made ["out", "lib", "a"] := by
    constructor <;>
    · rintro ⟨-, m, hm, ⟨target, hkind⟩, hcanon⟩
      simp only [linkedMembers, List.mem_cons, List.not_mem_nil, or_false] at hm
      rcases hm with rfl | rfl | rfl | rfl <;> cases hkind
      exact absurd (Except.ok.inj hcanon) (by decide)
  have hway : ∀ names, ".." ∉ names → k.Way true (fun _ => True) ["out"] names :=
    fun names hup => (hk.way_of_inside hroot hup).mono fun _ _ => trivial
  refine ⟨?_, ?_, ?_, ?_⟩
  · intro m hm
    simp only [linkedMembers, List.mem_cons, List.not_mem_nil, or_false] at hm
    rcases hm with rfl | rfl | rfl | rfl <;> exact hway _ (by decide +kernel)
  · intro m hm target hkind
    simp only [linkedMembers, List.mem_cons, List.not_mem_nil, or_false] at hm
    rcases hm with rfl | rfl | rfl | rfl <;> cases hkind
    exact ⟨[], "now", rfl, fun _ => .here ⟨hroot, hway _ (by decide +kernel)⟩⟩
  · intro m hm target hkind
    simp only [linkedMembers, List.mem_cons, List.not_mem_nil, or_false] at hm
    rcases hm with rfl | rfl | rfl | rfl <;> cases hkind
    have hn : IsName "lib" := ⟨by decide, by decide⟩
    refine ⟨["lib"], "a", rfl, fun _ => hk.step hroot hn hmade.1 (.here ⟨?_, hmade.2⟩)⟩
    exact List.prefix_append _ _
  · intro i j m hm hsym hj name target
    have hfirst : linkTarget? linkedMembers 3 = some 0 := by decide +kernel
    rcases i with _ | _ | _ | _ | i
    · cases hj
    · obtain rfl := Option.some.inj hm
      exact absurd (hsym "lib" rfl) (by decide)
    · cases hj
    · obtain rfl : 0 = j := Option.some.inj (hfirst.symm.trans hj)
      simp [linkedMembers]
    · cases hm

/-- Links are made and written through. -/
theorem extractFrom_confined_linked :
    Vacant (besideArchive linkedMembers) "out" ["out"] ∧
      Confined (besideArchive linkedMembers)
        (extractFrom (besideArchive linkedMembers) "b.tar" "out").1 ["out"] := by
  refine ⟨vacant_besideArchive _, extractFrom_confined (vacant_besideArchive _) fun a ha => ?_⟩
  obtain rfl : _ = a := Content.archive.inj (Option.some.inj ha)
  exact untangled_linkedMembers

/-- Two links that lead into the directory, one of them through `..` after the other, and a file. -/
def tangledMembers : List Member :=
  [⟨"d/e/p", .symlink "../.."⟩, ⟨"q", .symlink "d/e/p/.."⟩, ⟨"q/x", .file (.text "x")⟩]

/-- **Not every extraction stays in its directory**: the link `q` leads to the parent of where the
link `d/e/p` leads, and the file is written there. -/
theorem extractFrom_not_confined :
    Vacant (besideArchive tangledMembers) "out" ["out"] ∧
      ¬Confined (besideArchive tangledMembers)
        (extractFrom (besideArchive tangledMembers) "b.tar" "out").1 ["out"] := by
  refine ⟨vacant_besideArchive _, fun h => ?_⟩
  have hx := congrArg Option.isSome (h.outside ["x"] (by decide))
  revert hx
  decide +kernel

end PluginCatalog
