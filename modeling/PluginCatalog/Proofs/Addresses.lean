import PluginCatalog.Inventory.Entry
import PluginCatalog.Proofs.Ends

/-!
# Addresses of artifacts

Slashes where two texts are joined do not count, however many there are.

* `Address.below` is the address of a path below the common beginning of a catalogue; the path is
  found again (`Address.relative_below`), and it resolves to the address unless it begins with a
  slash (`Address.resolve_eq_below`).
* `Address.withoutFinalSlashes_slashed` and `Address.withoutInitialSlashes_slashed` say what is left
  of joined texts without the slashes at an end. Hence texts can be joined in either order
  (`Address.slashed_assoc`).
* `Address.join_resolve_relative` puts together what holds of joining, of resolving and of finding a
  path again.
-/

namespace PluginCatalog

/-! ## Addresses below the common beginning -/

namespace Address

/-- The address of a path below the common beginning. -/
def below (imagePrefix path : String) : String :=
  String.ofList (withoutFinalSlashes imagePrefix ++ '/' :: path.toList)

variable {imagePrefix : String}

/-- The path of an image below the common beginning is found. -/
theorem relative_below (h : imagePrefix ≠ "") (path : String) :
    relative imagePrefix (below imagePrefix path) = path := by
  have htoList : (below imagePrefix path).toList =
      (withoutFinalSlashes imagePrefix ++ ['/']) ++ path.toList := by
    simp [below]
  unfold relative
  simp [htoList, h]

/-- An image elsewhere keeps its address. -/
theorem relative_of_ne_below {image : String} (h : ∀ path, image ≠ below imagePrefix path) :
    relative imagePrefix image = image := by
  unfold relative
  dsimp only
  rw [if_neg]
  intro hbelow
  obtain ⟨-, hbelow⟩ := Bool.and_eq_true_iff.1 hbelow
  obtain ⟨path, hpath⟩ := List.isPrefixOf_iff_prefix.1 hbelow
  refine h (String.ofList path) ?_
  rw [← String.toList_inj, below]
  simpa using hpath.symm

/-- A path resolves to the address below the common beginning, unless it begins with a slash. -/
theorem resolve_eq_below (h : imagePrefix ≠ "") {path : String}
    (hpath : path.toList.head? ≠ some '/') :
    resolve imagePrefix path = below imagePrefix path := by
  have hstripped : withoutInitialSlashes path = path.toList := by
    unfold withoutInitialSlashes
    cases hp : path.toList with
    | nil => rfl
    | cons c cs =>
      have hc : c ≠ '/' := by simpa [hp] using hpath
      simp [hc]
  unfold resolve slashed below
  simp [h, hstripped]

/-! ## Joined texts -/

section Joined

variable (b r s : String)

theorem toList_slashed :
    (slashed b r).toList = withoutFinalSlashes b ++ '/' :: withoutInitialSlashes r :=
  String.toList_ofList

theorem slashed_ne_empty : slashed b r ≠ "" := by
  intro h
  have htoList := toList_slashed b r
  simp [h] at htoList

/-- The text without the slashes at its two ends. -/
def trimmed : List Char := (withoutInitialSlashes r).rdropWhile (· == '/')

/-- Without the slashes at its end, a joined text ends where its path does, or where its repository
does, if the path is made of slashes alone. -/
theorem withoutFinalSlashes_slashed : withoutFinalSlashes (slashed b r) =
    if (trimmed r).isEmpty then withoutFinalSlashes b
    else withoutFinalSlashes b ++ '/' :: trimmed r := by
  have hpath : ('/' :: withoutInitialSlashes r).rdropWhile (· == '/') =
      if (trimmed r).isEmpty then [] else '/' :: trimmed r := by
    rw [← List.singleton_append, rdropWhile_append]
    rfl
  have htwice : (withoutFinalSlashes b).rdropWhile (· == '/') = withoutFinalSlashes b :=
    List.rdropWhile_idempotent _ _
  change (slashed b r).toList.rdropWhile (· == '/') = _
  rw [toList_slashed, rdropWhile_append, hpath, htwice]
  cases (trimmed r).isEmpty <;> rfl

/-- Without the slashes at its beginning, a joined text begins where its repository does, or where
its path does, if the repository is made of slashes alone. -/
theorem withoutInitialSlashes_slashed : withoutInitialSlashes (slashed r s) =
    if (trimmed r).isEmpty then withoutInitialSlashes s
    else trimmed r ++ '/' :: withoutInitialSlashes s := by
  have hrepository : (withoutFinalSlashes r).dropWhile (· == '/') = trimmed r :=
    (rdropWhile_dropWhile r.toList).symm
  have htwice : (withoutInitialSlashes s).dropWhile (· == '/') = withoutInitialSlashes s :=
    List.dropWhile_idempotent _ _
  change (slashed r s).toList.dropWhile (· == '/') = _
  rw [toList_slashed, List.dropWhile_append, hrepository, List.dropWhile_cons_of_pos rfl, htwice]

/-- **Joining** can be done in either order. -/
theorem slashed_assoc : slashed (slashed b r) s = slashed b (slashed r s) := by
  rw [← String.toList_inj, toList_slashed, toList_slashed b, withoutFinalSlashes_slashed,
    withoutInitialSlashes_slashed]
  split
  · rfl
  · rw [List.append_assoc, List.cons_append]

end Joined

variable {p u : String}

theorem join?_eq_some (hp : p ≠ "") (hu : u ≠ "") : join? p u = some (slashed p u) := by
  simp [join?, join, hp, hu]

theorem resolve_eq (hp : p ≠ "") (u : String) : resolve p u = slashed p u := by
  simp [resolve, hp]

/-! ## Paths that are found again -/

/-- `v` is `u` without the slashes at its beginning. -/
structure WithoutLeadingSlashes (u v : String) : Prop where
  slashes : ∃ n, u.toList = List.replicate n '/' ++ v.toList
  rest : v.toList.head? ≠ some '/'

theorem withoutLeadingSlashes_ofList (u : String) :
    WithoutLeadingSlashes u (String.ofList (withoutInitialSlashes u)) where
  slashes := by
    refine ⟨(u.toList.takeWhile (· == '/')).length, ?_⟩
    have hslashes : u.toList.takeWhile (· == '/') =
        List.replicate (u.toList.takeWhile (· == '/')).length '/' :=
      List.eq_replicate_of_mem fun c hc => by simpa using List.mem_takeWhile_imp hc
    rw [← hslashes, String.toList_ofList]
    exact List.takeWhile_append_dropWhile.symm
  rest := by
    have hhead := List.head?_dropWhile_not (· == '/') u.toList
    rw [String.toList_ofList]
    intro hslash
    rw [withoutInitialSlashes] at hslash
    simp [hslash] at hhead

/-- What resolves to an address is found again, up to the slashes at its beginning. -/
theorem relative_resolve (hp : p ≠ "") (u : String) :
    relative p (resolve p u) = String.ofList (withoutInitialSlashes u) := by
  have hbelow : resolve p u = below p (String.ofList (withoutInitialSlashes u)) := by
    rw [resolve_eq hp, slashed, below, String.toList_ofList]
  rw [hbelow, relative_below hp]

/-- The slashes at the beginning of a path do not matter for its address. -/
theorem resolve_ofList (hp : p ≠ "") (u : String) :
    resolve p (String.ofList (withoutInitialSlashes u)) = resolve p u := by
  rw [resolve_eq_below hp (withoutLeadingSlashes_ofList u).rest, resolve_eq hp, slashed, below,
    String.toList_ofList]

/-- **Addresses agree.** A path that resolves to an address is found again without the slashes at
its beginning, and that resolves to the address again. Paths can be joined in either order. An image
resolves to the address at which it is published below a repository, if the repository is the common
beginning of the catalogue. -/
theorem join_resolve_relative :
    (∀ p u : String, p ≠ "" → WithoutLeadingSlashes u (relative p (resolve p u)) ∧
        resolve p (relative p (resolve p u)) = resolve p u) ∧
      (∀ b r s : String, b ≠ "" → r ≠ "" → s ≠ "" → ∃ br rs brs,
        join? b r = some br ∧ join? r s = some rs ∧ join? br s = some brs ∧
          join? b rs = some brs) ∧
      ∀ p u : String, p ≠ "" → u ≠ "" → join? p u = some (resolve p u) ∧
        ∀ row : ReadRow, row.uri = some u → (Artifact.ofRow p row).image = join? p u := by
  refine ⟨fun p u hp => ?_, fun b r s hb hr hs => ?_, fun p u hp hu => ?_⟩
  · rw [relative_resolve hp]
    exact ⟨withoutLeadingSlashes_ofList u, resolve_ofList hp u⟩
  · refine ⟨slashed b r, slashed r s, slashed b (slashed r s), join?_eq_some hb hr,
      join?_eq_some hr hs, ?_, join?_eq_some hb (slashed_ne_empty r s)⟩
    rw [join?_eq_some (slashed_ne_empty b r) hs, slashed_assoc]
  · have hjoin : join? p u = some (resolve p u) := by rw [join?_eq_some hp hu, resolve_eq hp]
    refine ⟨hjoin, fun row hrow => ?_⟩
    rw [hjoin, Artifact.ofRow, hrow, Option.map_some]

/-- A repository that ends in slashes, a path made of slashes alone, and slashes in the middle. -/
theorem join_resolve_relative_slashes :
    (∃ v, WithoutLeadingSlashes "//apps//v1/" v ∧ resolve "r.io/p//" v = "r.io/p/apps//v1/") ∧
      (∃ br rs brs, join? "/r.io/" "//" = some br ∧ join? "//" "/apps/" = some rs ∧
        join? br "/apps/" = some brs ∧ join? "/r.io/" rs = some brs ∧ brs = "/r.io/apps/") ∧
      join? "r.io/p//" "/apps" = some (resolve "r.io/p//" "/apps") := by
  obtain ⟨hfound, hjoined, hpublished⟩ := join_resolve_relative
  obtain ⟨hpath, hagain⟩ := hfound "r.io/p//" "//apps//v1/" (by decide)
  obtain ⟨br, rs, brs, hbr, hrs, hbrs, hbrs'⟩ :=
    hjoined "/r.io/" "//" "/apps/" (by decide) (by decide) (by decide)
  have hall : (join? "/r.io/" "//").bind (join? · "/apps/") = some "/r.io/apps/" := by
    decide +kernel
  rw [hbr, Option.bind_some, hbrs] at hall
  refine ⟨⟨_, hpath, hagain.trans (by decide +kernel)⟩,
    ⟨br, rs, brs, hbr, hrs, hbrs, hbrs', Option.some.inj hall⟩, ?_⟩
  exact (hpublished "r.io/p//" "/apps" (by decide) (by decide)).1

end Address

end PluginCatalog
