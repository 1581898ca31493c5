import PluginCatalog.Proofs.FileTree.Locks
import PluginCatalog.Proofs.FileTree.Paved
import PluginCatalog.Upload

/-!
# Files of a bundle

* `Uploader.isOwn`: a path of a manifest that, taken as it is written, stays in the directory of the
  run and keeps out of the downloads.
* `Later extracted root aside t`: since a bundle was unpacked into `root`, only what is `aside` has
  changed, and the contents of files of the bundle, and files were made among them.
* `ownFile_of_isOwn`: at such a path there is a file of the bundle, in all trees that come later, if
  there is one when it was unpacked and no link with it. The lock of the path is in the directory of
  the run, too (`locksIn_of_isOwn`), so that taking it leads to such a tree (`Later.takeLock`).
-/

namespace PluginCatalog

open FileTree

/-! ## Paths that stay -/

/-- Names that are taken as they are written, from the names `here` on, stay in a directory and keep
out of one of the directories in it. -/
def staysFrom (aside : String) : List String → List String → Bool
  | _, [] => true
  | here, name :: rest =>
    if name = ".." then !here.isEmpty && staysFrom aside here.dropLast rest
    else (here ++ [name]).head? != some aside && staysFrom aside (here ++ [name]) rest

/-- A path in a bundle that stays in the directory of the run and keeps out of the downloads. -/
def Uploader.isOwn (source : String) : Bool :=
  !(Path.ofText source).isAbsolute &&
    staysFrom downloadName [] (bundleName :: Path.components source)

example : ["s.db", "a/../s.db", "../other/s.db", "../inventory-metadata/s.db", "../../s.db",
    "/s.db"].map Uploader.isOwn = [true, true, true, false, false, false] := by decide +kernel

/-- A location in a directory that is not in one of the directories in it. -/
def Within (root : Location) (aside : String) (loc : Location) : Prop :=
  root <+: loc ∧ ¬root ++ [aside] <+: loc

theorem Within.of_head {root here : Location} {aside : String} (h : here.head? ≠ some aside) :
    Within root aside (root ++ here) := by
  refine ⟨List.prefix_append _ _, ?_⟩
  rw [List.prefix_append_right_inj]
  rintro ⟨more, hmore⟩
  exact h (by rw [← hmore]; rfl)

theorem head?_dropLast_ne {here : List String} {aside : String} (h : here.head? ≠ some aside) :
    here.dropLast.head? ≠ some aside := by
  match here with
  | [] => exact h
  | [_] => exact nofun
  | _ :: _ :: _ => exact h

/-- Names stay when another name takes the place of the last one. -/
theorem staysFrom_concat {aside name name' : String} {here front : List String}
    (h : staysFrom aside here (front ++ [name])) (hhere : here.head? ≠ some aside)
    (hup : name' ≠ "..") (haside : name' ≠ aside) : staysFrom aside here (front ++ [name']) := by
  induction front generalizing here with
  | nil =>
    rw [List.nil_append, staysFrom, if_neg hup, staysFrom, Bool.and_true, bne_iff_ne]
    cases here with
    | nil => simpa using haside
    | cons => exact hhere
  | cons x front ih =>
    rw [List.cons_append, staysFrom] at h ⊢
    split at h
    next hx =>
      rw [if_pos hx]
      rw [Bool.and_eq_true] at h ⊢
      exact ⟨h.1, ih h.2 (head?_dropLast_ne hhere)⟩
    next hx =>
      rw [if_neg hx]
      rw [Bool.and_eq_true] at h ⊢
      exact ⟨h.1, ih h.2 (bne_iff_ne.1 h.1)⟩

/-! ## Trees after unpacking -/

/-- A node without what is in it. -/
def Node.emptied : Node → Node
  | file serial _ => file serial (.text "")
  | node => node

@[simp] theorem Node.emptied_withContent (serial : Nat) (content : Content) (node : Node) :
    (node.withContent serial content).emptied = node.emptied := by
  cases node <;> rfl

theorem eq_file_of_emptied {o : Option Node} {serial : Nat} {c : Content}
    (h : o.map Node.emptied = some (Node.emptied (.file serial c))) :
    ∃ c', o = some (.file serial c') := by
  rcases o with _ | _ | ⟨s, c'⟩ | _ | _ <;> simp [Node.emptied] at h
  exact ⟨c', by rw [h]⟩

theorem eq_directory_of_emptied {o : Option Node}
    (h : o.map Node.emptied = some .directory) : o = some .directory := by
  rcases o with _ | _ | _ | _ | _ <;> simp [Node.emptied] at h
  rfl

/-- No file outside of a directory has this number. -/
def Inner (t : FileTree) (root : Location) (serial : Nat) : Prop :=
  ∀ loc c, ¬(root <+: loc ∧ loc ≠ root) → t.node? loc ≠ some (.file serial c)

/-- What was unpacked stays, but for its content, and files come to it that are none outside. -/
def Stays (extracted : FileTree) (root : Location) (t : FileTree) (loc : Location) : Prop :=
  (t.node? loc).map Node.emptied = (extracted.node? loc).map Node.emptied ∨
    extracted.node? loc = none ∧
      ∃ serial c, t.node? loc = some (.file serial c) ∧ Inner extracted root serial

/-- Only what is aside has changed, and the contents of files in the directory, and files were made
in it. -/
structure Later (extracted : FileTree) (root : Location) (aside : String) (t : FileTree) :
    Prop where
  outside : ∀ loc, ¬(root <+: loc ∧ loc ≠ root) → t.node? loc = extracted.node? loc
  own : ∀ loc, root <+: loc → ¬root ++ [aside] <+: loc → Stays extracted root t loc

/-- No file in a directory is one outside, and there is no link in it. -/
structure Sealed (t : FileTree) (root : Location) : Prop where
  links : ∀ loc target, root <+: loc → loc ≠ root → t.node? loc ≠ some (.link target)
  serials : ∀ loc loc' n c c', root <+: loc → loc ≠ root → ¬(root <+: loc' ∧ loc' ≠ root) →
    t.node? loc = some (.file n c) → t.node? loc' ≠ some (.file n c')

theorem Sealed.inner {t : FileTree} {root loc : Location} (hs : Sealed t root) (hin : root <+: loc)
    (hne : loc ≠ root) {serial : Nat} {c : Content} (hnode : t.node? loc = some (.file serial c)) :
    Inner t root serial :=
  fun loc' c' hout => hs.serials loc loc' serial c c' hin hne hout hnode

section Stays

variable {extracted t : FileTree} {root loc : Location}

theorem Stays.of_some (h : Stays extracted root t loc) {node : Node}
    (hnode : extracted.node? loc = some node) :
    (t.node? loc).map Node.emptied = some node.emptied := by
  rcases h with he | ⟨hnone, -⟩
  · rw [he, hnode]
    rfl
  · exact absurd (hnone.symm.trans hnode) nofun

/-- No link comes up. -/
theorem Stays.not_link (h : Stays extracted root t loc)
    (hl : ∀ target, extracted.node? loc ≠ some (.link target)) (target : String) :
    t.node? loc ≠ some (.link target) := by
  intro hnode
  rcases h with he | ⟨-, serial, c, hfile, -⟩
  · rw [hnode] at he
    rcases ho : extracted.node? loc with _ | _ | _ | target' | _
    · simp [ho] at he
    · simp [ho, Node.emptied] at he
    · simp [ho, Node.emptied] at he
    · exact hl target' ho
    · simp [ho, Node.emptied] at he
  · exact absurd (hfile.symm.trans hnode) nofun

/-- Whatever file there is then, it is none outside. -/
theorem Stays.inner (h : Stays extracted root t loc) (hs : Sealed extracted root)
    (hin : root <+: loc) (hne : loc ≠ root) {serial : Nat} {c : Content}
    (hnode : t.node? loc = some (.file serial c)) : Inner extracted root serial := by
  rcases h with he | ⟨-, serial', c', hfile, hi⟩
  · rw [hnode] at he
    obtain ⟨c', hnode'⟩ := eq_file_of_emptied he.symm
    exact hs.inner hin hne hnode'
  · obtain ⟨rfl, -⟩ := Node.file.inj (Option.some.inj (hfile.symm.trans hnode))
    exact hi

end Stays

namespace Later

variable {extracted t t' : FileTree} {root : Location} {aside : String}

theorem refl (extracted : FileTree) (root : Location) (aside : String) :
    Later extracted root aside extracted := ⟨fun _ _ => rfl, fun _ _ _ => .inl rfl⟩

/-- Where a path is not in the directory, it is not aside. -/
theorem not_aside {loc : Location} (h : ¬(root <+: loc ∧ loc ≠ root)) :
    ¬root ++ [aside] <+: loc := by
  intro ha
  refine h ⟨(List.prefix_append _ _).trans ha, ?_⟩
  rintro rfl
  have hlen := ha.length_le
  rw [List.length_append, List.length_singleton] at hlen
  omega

/-- What is aside changes. -/
theorem of_aside (h : Later extracted root aside t)
    (hsame : ∀ loc, ¬root ++ [aside] <+: loc → t'.node? loc = t.node? loc) :
    Later extracted root aside t' where
  outside loc hloc := (hsame loc (not_aside hloc)).trans (h.outside loc hloc)
  own loc hin haside := by
    rw [Stays, hsame loc haside]
    exact h.own loc hin haside

/-- A file that is none outside gets new content. -/
theorem setContent (h : Later extracted root aside t) {serial : Nat}
    (hi : Inner extracted root serial) (content : Content) :
    Later extracted root aside (t.setContent serial content) where
  outside l hl := by
    rw [node?_setContent, h.outside l hl]
    rcases hl' : extracted.node? l with _ | _ | ⟨n, c'⟩ | _ | _
    all_goals try rfl
    have hn : n ≠ serial := by
      rintro rfl
      exact hi l c' hl hl'
    simp [Node.withContent, hn]
  own l hl haside := by
    rw [Stays, node?_setContent]
    refine (h.own l hl haside).imp (fun he => ?_) ?_
    · rw [Option.map_map, ← he]
      congr 1
      funext node
      exact Node.emptied_withContent serial content node
    · rintro ⟨hnone, n, c, hfile, hi⟩
      exact ⟨hnone, n, _, by rw [hfile]; rfl, hi⟩

/-- A file is made in the directory. -/
theorem set_file (h : Later extracted root aside t) {loc : Location} (hne : loc ≠ root)
    (hin : root <+: loc) (haside : ¬root ++ [aside] <+: loc) (hfree : t.node? loc = none)
    (content : Content) :
    Later extracted root aside (t.set loc (.file t.freshSerial content)) := by
  have hnil : loc ≠ [] := by
    rintro rfl
    cases hfree
  refine ⟨fun l hl => ?_, fun l hl ha => ?_⟩
  · rw [node?_set t hnil, if_neg, h.outside l hl]
    rintro rfl
    exact hl ⟨hin, hne⟩
  · rw [Stays, node?_set t hnil]
    split
    next heq =>
      subst heq
      have hnone : extracted.node? l = none := by
        rcases h.own l hin haside with he | ⟨hnone, -⟩
        · simpa [hfree] using he.symm
        · exact hnone
      refine .inr ⟨hnone, _, _, rfl, fun l' c' hout hnode => ?_⟩
      rw [← h.outside l' hout] at hnode
      exact Nat.lt_irrefl _ (lt_freshSerial hnode)
    next => exact h.own l hl ha

/-- **A walk along names that stay** leads to the same file. -/
theorem walk (h : Later extracted root aside t) (hs : Sealed extracted root) {last : Bool}
    {links : Nat} {here names : List String} (hdot : "." ∉ names)
    (hstay : staysFrom aside here names) {loc : Location} {serial : Nat} {c : Content}
    (hw : extracted.walk last links (root ++ here) names = .ok (.taken loc (.file serial c))) :
    root <+: loc ∧ loc ≠ root ∧ extracted.node? loc = some (.file serial c) ∧
      ∃ c', t.walk last links (root ++ here) names = .ok (.taken loc (.file serial c')) := by
  induction names generalizing here with
  | nil =>
    rw [walk_nil] at hw
    cases hw
  | cons name rest ih =>
    rw [List.mem_cons, not_or] at hdot
    obtain ⟨hname, hrest⟩ := hdot
    unfold staysFrom at hstay
    split at hstay
    next hup =>
      subst hup
      rw [Bool.and_eq_true, Bool.not_eq_true', List.isEmpty_eq_false_iff] at hstay
      rw [walk_up, List.dropLast_append_of_ne_nil hstay.1] at hw ⊢
      exact ih hrest hstay.2 hw
    next hup =>
      have hn : IsName name := ⟨Ne.symm hname, hup⟩
      rw [Bool.and_eq_true, bne_iff_ne] at hstay
      obtain ⟨hin, haside⟩ : Within root aside (root ++ here ++ [name]) := by
        rw [List.append_assoc]
        exact .of_head hstay.1
      have hne : root ++ here ++ [name] ≠ root := by simp
      have hsame := h.own _ hin haside
      have hr := reaches_of_walk hw
      generalize hspot : Spot.taken loc (.file serial c) = spot at hr
      cases hr with
      | dot => exact absurd rfl hn.1
      | up => exact absurd rfl hn.2
      | free => cases hspot
      | enter _ hnode =>
        have hnode' := eq_directory_of_emptied (hsame.of_some hnode)
        rw [walk_directory _ last links _ hn hnode, List.append_assoc] at hw
        rw [walk_directory _ last links _ hn hnode', List.append_assoc]
        exact ih hrest hstay.2 hw
      | keep _ _ hnode => exact absurd hnode (hs.links _ _ hin hne)
      | link _ hnode => exact absurd hnode (hs.links _ _ hin hne)
      | leaf _ hnode =>
        obtain ⟨rfl, rfl⟩ := Spot.taken.inj hspot
        obtain ⟨c', hnode'⟩ := eq_file_of_emptied (hsame.of_some hnode)
        exact ⟨hin, hne, hnode, c', walk_leaf _ last links _ hn hnode' nofun nofun⟩

/-- **A walk along names that stay** keeps out of what is aside. -/
theorem walk_within (h : Later extracted root aside t) (hs : Sealed extracted root) {last : Bool}
    {links : Nat} {here names : List String} (hdot : "." ∉ names) (hhere : here.head? ≠ some aside)
    (hstay : staysFrom aside here names) {spot : Spot}
    (hw : t.walk last links (root ++ here) names = .ok spot) : Within root aside spot.location := by
  induction names generalizing here with
  | nil =>
    rw [walk_nil] at hw
    obtain rfl := Except.ok.inj hw
    exact .of_head hhere
  | cons name rest ih =>
    rw [List.mem_cons, not_or] at hdot
    obtain ⟨hname, hrest⟩ := hdot
    unfold staysFrom at hstay
    split at hstay
    next hup =>
      subst hup
      rw [Bool.and_eq_true, Bool.not_eq_true', List.isEmpty_eq_false_iff] at hstay
      rw [walk_up, List.dropLast_append_of_ne_nil hstay.1] at hw
      exact ih hrest (head?_dropLast_ne hhere) hstay.2 hw
    next hup =>
      have hn : IsName name := ⟨Ne.symm hname, hup⟩
      rw [Bool.and_eq_true, bne_iff_ne] at hstay
      have hin : Within root aside (root ++ here ++ [name]) := by
        rw [List.append_assoc]
        exact .of_head hstay.1
      have hne : root ++ here ++ [name] ≠ root := by simp
      have hlink := (h.own _ hin.1 hin.2).not_link fun target => hs.links _ target hin.1 hne
      have hr := reaches_of_walk hw
      cases hr with
      | dot => exact absurd rfl hn.1
      | up => exact absurd rfl hn.2
      | free => exact hin
      | enter _ hnode =>
        rw [walk_directory _ last links _ hn hnode, List.append_assoc] at hw
        exact ih hrest hstay.1 hstay.2 hw
      | keep _ _ hnode => exact absurd hnode (hlink _)
      | link _ hnode => exact absurd hnode (hlink _)
      | leaf => exact hin

theorem paved (h : Later extracted root aside t) (hp : Paved extracted root) : Paved t root := by
  refine ⟨hp.1, fun l hl => ?_⟩
  rw [h.outside l fun hb => hb.2 ?_, hp.2 l hl]
  exact hl.eq_of_length (Nat.le_antisymm hl.length_le hb.1.length_le)

/-- **A lock in the directory** is taken. -/
theorem takeLock (h : Later extracted root aside t) (hs : Sealed extracted root)
    (hp : Paved extracted root) {lock : Path}
    (hl : ∀ spot, t.follow lock = .ok spot → Within root aside spot.location)
    (ht : t.takeLock lock = .ok t') : Later extracted root aside t' := by
  have hroot : t.node? root = some .directory := (h.paved hp).2 root List.prefix_rfl
  rcases takeLock_inv ht with ⟨rfl, -⟩ | ⟨loc, serial, old, hspot, rfl⟩ | ⟨loc, hspot, rfl⟩
  · exact h
  · obtain ⟨hin, haside⟩ := hl _ hspot
    obtain ⟨-, hnode⟩ := (reaches_of_follow hspot).node?_taken nofun
    have hne : loc ≠ root := by
      rintro rfl
      cases hroot.symm.trans hnode
    exact h.setContent ((h.own loc hin haside).inner hs hin hne hnode) _
  · obtain ⟨hin, haside⟩ := hl _ hspot
    obtain ⟨-, hfree⟩ := (reaches_of_follow hspot).node?_free
    have hne : loc ≠ root := by
      rintro rfl
      cases hroot.symm.trans hfree
    exact h.set_file hne hin haside hfree _

end Later

/-! ## Files of the bundle -/

/-- A path leads to a file in the directory that was unpacked. -/
def OwnFile (extracted : FileTree) (root : Location) (t : FileTree) (p : Path) : Prop :=
  ∃ loc serial c c', root <+: loc ∧ loc ≠ root ∧ extracted.node? loc = some (.file serial c) ∧
    t.follow p = .ok (.taken loc (.file serial c'))

namespace Uploader

variable {u : Uploader} {source : String}

theorem bundle_parts (u : Uploader) :
    u.bundle = ⟨u.scratch.slashes, u.scratch.parts ++ [bundleName]⟩ := by
  have hname : Path.ofText bundleName = ⟨0, [bundleName]⟩ := by decide +kernel
  change u.scratch.append (Path.ofText bundleName) = _
  rw [hname]
  rfl

theorem bundle_append (h : (Path.ofText source).isAbsolute = false) :
    u.bundle / source =
      ⟨u.scratch.slashes, u.scratch.parts ++ bundleName :: Path.components source⟩ := by
  change u.bundle.append (Path.ofText source) = _
  rw [Path.append, if_neg (by simp [h]), bundle_parts]
  simp [Path.ofText]

theorem isOwn_inv (h : isOwn source) : (Path.ofText source).isAbsolute = false ∧
    staysFrom downloadName [] (bundleName :: Path.components source) := by
  rwa [isOwn, Bool.and_eq_true, Bool.not_eq_true'] at h

theorem dot_not_mem_bundle (source : String) : "." ∉ bundleName :: Path.components source := by
  simpa [bundleName] using Path.dot_not_mem_components source

/-- Where a path that stays is followed from the directory of the run. -/
theorem follow_bundle {t : FileTree} (hp : u.scratch.isAbsolute) (ht : Paved t u.scratch.parts)
    (names : List String) : t.follow ⟨u.scratch.slashes, u.scratch.parts ++ names⟩ =
      t.walk true maxLinks (u.scratch.parts ++ []) names := by
  rw [FileTree.follow, origin]
  change (t.walk true maxLinks (if u.scratch.isAbsolute then [] else _) _) = _
  rw [if_pos hp, ht.walk, List.append_nil]

/-- **A file at a path that stays** is one of the bundle, and remains it. -/
theorem ownFile_of_isOwn {extracted t : FileTree} (hp : u.scratch.isAbsolute)
    (hpaved : Paved extracted u.scratch.parts) (hs : Sealed extracted u.scratch.parts)
    (hown : isOwn source) (hfile : extracted.isFile (u.bundle / source))
    (h : Later extracted u.scratch.parts downloadName t) :
    OwnFile extracted u.scratch.parts t (u.bundle / source) := by
  obtain ⟨hrel, hstay⟩ := isOwn_inv hown
  have hfollow : ∀ t, Paved t u.scratch.parts → t.follow (u.bundle / source) =
      t.walk true maxLinks (u.scratch.parts ++ []) (bundleName :: Path.components source) := by
    intro t ht
    rw [bundle_append hrel, follow_bundle hp ht]
  unfold isFile at hfile
  rcases hc : extracted.file? (u.bundle / source) with _ | c
  · simp [hc] at hfile
  obtain ⟨loc, serial, hspot⟩ := follow_of_file? hc
  rw [hfollow _ hpaved] at hspot
  obtain ⟨hin, hne, hnode, c', hw⟩ := h.walk hs (dot_not_mem_bundle source) hstay hspot
  exact ⟨loc, serial, c, c', hin, hne, hnode, by rw [hfollow _ (h.paved hpaved), hw]⟩

/-- A lock is no name that ends otherwise. -/
theorem append_lock_ne {other : String} (h : other.toList.getLast? ≠ some 'k') (name : String) :
    name ++ ".lock" ≠ other := by
  rintro rfl
  exact h (by simp)

/-- The lock of a path leads into the directory of the run, and not to the downloads, whatever is
written later. -/
def LocksIn (u : Uploader) (extracted : FileTree) (p : Path) : Prop :=
  ∀ t, Later extracted u.scratch.parts downloadName t → ∀ spot, t.follow p.lock = .ok spot →
    Within u.scratch.parts downloadName spot.location

/-- **The lock of a path that stays** is beside what it leads to. -/
theorem locksIn_of_isOwn {extracted : FileTree} (hp : u.scratch.isAbsolute)
    (hpaved : Paved extracted u.scratch.parts) (hs : Sealed extracted u.scratch.parts)
    (hown : isOwn source) : u.LocksIn extracted (u.bundle / source) := by
  intro t h spot hspot
  obtain ⟨hrel, hstay⟩ := isOwn_inv hown
  obtain ⟨front, name, hnames⟩ :=
    (List.eq_nil_or_concat (bundleName :: Path.components source)).resolve_left nofun
  rw [List.concat_eq_append] at hnames
  have hlock : (u.bundle / source).lock =
      ⟨u.scratch.slashes, u.scratch.parts ++ (front ++ [name ++ ".lock"])⟩ := by
    rw [bundle_append hrel, hnames, ← List.append_assoc, ← List.append_assoc, Path.lock, Path.name,
      List.dropLast_concat, List.getLast?_concat]
    rfl
  have hdot : "." ∉ front ++ [name ++ ".lock"] := by
    have hbundle := dot_not_mem_bundle source
    rw [hnames, List.mem_append, not_or] at hbundle
    rw [List.mem_append, not_or, List.mem_singleton]
    exact ⟨hbundle.1, (append_lock_ne (by decide) name).symm⟩
  rw [hnames] at hstay
  have hstay' : staysFrom downloadName [] (front ++ [name ++ ".lock"]) :=
    staysFrom_concat hstay (by simp) (append_lock_ne (by decide) name)
      (append_lock_ne (by decide) name)
  rw [hlock, follow_bundle hp (h.paved hpaved)] at hspot
  exact h.walk_within hs hdot (by simp) hstay' hspot

end Uploader

end PluginCatalog
