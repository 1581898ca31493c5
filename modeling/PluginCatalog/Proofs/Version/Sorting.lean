import PluginCatalog.Proofs.Version.Parsing

/-!
# Sorted versions

Versions are sorted by their keys. Many texts spell versions of one key, so that the order in which
the texts are given decides how these stand, and which of them is the highest version.

* `KeyAtMost` and `KeyBelow` compare texts by the keys of the versions that they spell.
* `Sorts texts sorted`: the texts ascend, and those of one key stand as they were given;
  `IsHighest texts m`: `m` is the last of the texts that no key exceeds.
* `sortVersions_eq_ok` and `sortVersions_eq_error_iff`: versions are sorted by `ascends`, and other
  texts fail with the error of the first of them.
* `sortVersions_sorts` says of all lists of texts what comes of sorting them.
-/

namespace PluginCatalog

namespace Version

/-! ## Keys of texts -/

/-- The key of a text that is a version. -/
def keyOf? (text : String) : Option SortKey := (parse text).toOption.map sortKey

/-- Two texts are versions, and the key of the second one is not lower. -/
def KeyAtMost (s t : String) : Prop := ∃ k ∈ keyOf? s, ∃ l ∈ keyOf? t, (k.compare l).isLE

/-- Two texts are versions, and the key of the second one is higher. -/
def KeyBelow (s t : String) : Prop := ∃ k ∈ keyOf? s, ∃ l ∈ keyOf? t, k.compare l = .lt

/-- The text is a version. -/
def IsVersion (text : String) : Prop := ∃ v, parse text = .ok v

/-- The version that a text spells; so that all texts can be compared, one that spells none is given
a version too. -/
def spelt (text : String) : Version := (parse text).toOption.getD ⟨0, 0, 0, []⟩

variable {s t : String}

theorem IsVersion.parse (h : IsVersion t) : parse t = .ok (spelt t) := by
  obtain ⟨v, hv⟩ := h
  rw [spelt, hv]
  rfl

theorem IsVersion.keyOf? (h : IsVersion t) : keyOf? t = some (spelt t).sortKey := by
  rw [Version.keyOf?, h.parse]
  rfl

theorem isVersion_iff_isWritten : IsVersion t ↔ isWritten (some t) = .ok true := by
  constructor
  · rintro ⟨v, hv⟩
    exact isWritten_of_parse hv
  · intro h
    unfold isWritten parse? at h
    rcases hv : Version.parse t with (_ | _) | v <;> simp [hv] at h
    exact ⟨v, hv⟩

/-- Texts without overlong numbers are versions if they are spelt by pieces. -/
theorem isVersion_iff_spells (h : ShortRuns t) : IsVersion t ↔ ∃ p : Parts, p.Spells t := by
  constructor
  · rintro ⟨v, hv⟩
    obtain ⟨p, hp, -⟩ := parse_eq_ok_iff.1 hv
    exact ⟨p, hp⟩
  · rintro ⟨p, hp⟩
    exact ⟨p.version, parse_eq_ok_iff.2 ⟨p, hp, hp.short h, rfl⟩⟩

/-! ## The order of texts -/

/-- Whether the version that `s` spells does not come after that of `t`. -/
def ascends (s t : String) : Bool := (spelt s).precedes (spelt t)

theorem ascends_trans (r s t : String) (hrs : ascends r s) (hst : ascends s t) : ascends r t :=
  precedes_trans hrs hst

theorem ascends_total (s t : String) : ascends s t || ascends t s :=
  precedes_total (spelt s) (spelt t)

theorem keyAtMost_iff (hs : IsVersion s) (ht : IsVersion t) : KeyAtMost s t ↔ ascends s t := by
  simp only [KeyAtMost, hs.keyOf?, ht.keyOf?, Option.mem_some_iff, exists_eq_left',
    compare_sortKey]
  exact Iff.rfl

theorem keyBelow_iff (hs : IsVersion s) (ht : IsVersion t) : KeyBelow s t ↔ ¬ascends t s := by
  have hswap : (spelt t).compare (spelt s) = ((spelt s).compare (spelt t)).swap :=
    Std.OrientedCmp.eq_swap
  simp only [KeyBelow, hs.keyOf?, ht.keyOf?, Option.mem_some_iff, exists_eq_left',
    compare_sortKey, ascends, precedes, hswap]
  cases (spelt s).compare (spelt t) <;> decide

/-- Texts of one key ascend in either order. -/
theorem ascends_of_key (hs : IsVersion s) (ht : IsVersion t) (h : keyOf? s = keyOf? t) :
    ascends s t := by
  rw [hs.keyOf?, ht.keyOf?, Option.some.injEq, sortKey_injective.eq_iff] at h
  unfold ascends
  rw [h]
  simpa using precedes_total (spelt t) (spelt t)

end Version

/-! ## The sorted list -/

open Version

variable {texts : List String}

/-- **Versions are sorted** by the versions that they spell. -/
theorem sortVersions_eq_ok (h : ∀ t ∈ texts, IsVersion t) :
    sortVersions texts = .ok (stableSort ascends texts) := by
  have hread : (texts.mapM fun t => (parse t).map (t, ·)) =
      .ok (texts.map fun t => (t, spelt t)) := by
    refine mapM_eq_ok fun t ht => ?_
    rw [(h t ht).parse]
    rfl
  have hsorted : (sortByVersion (texts.map fun t => (t, spelt t))).map Prod.fst =
      stableSort ascends texts := by
    unfold sortByVersion
    rw [stableSort_map, List.map_map]
    exact List.map_id _
  unfold sortVersions
  rw [hread]
  exact congrArg Except.ok hsorted

theorem maxVersion_eq_ok (h : ∀ t ∈ texts, IsVersion t) :
    maxVersion texts = .ok ((stableSort ascends texts).getLast?.getD "") := by
  rw [maxVersion, sortVersions_eq_ok h]
  rfl

/-- Texts are sorted only if all of them are versions. -/
theorem exists_sortVersions_iff :
    (∃ sorted, sortVersions texts = .ok sorted) ↔ ∀ t ∈ texts, IsVersion t := by
  refine ⟨?_, fun h => ⟨_, sortVersions_eq_ok h⟩⟩
  rintro ⟨sorted, h⟩ t ht
  obtain ⟨read, hread, -⟩ := bind_eq_ok_iff.1 h
  obtain ⟨x, hx⟩ := exists_mapM_eq_ok_iff.1 ⟨read, hread⟩ t ht
  obtain ⟨v, hv, -⟩ := map_eq_ok_iff.1 hx
  exact ⟨v, hv⟩

/-- **Other texts** fail with the error of the first of them. -/
theorem sortVersions_eq_error_iff {e : VersionError} :
    sortVersions texts = .error e ↔ ∃ before t after, texts = before ++ t :: after ∧
      (∀ s ∈ before, IsVersion s) ∧ parse t = .error e := by
  have hread : sortVersions texts = .error e ↔
      (texts.mapM fun t => (parse t).map (t, ·)) = .error e := by
    unfold sortVersions
    rw [bind_eq_error_iff]
    exact or_iff_left nofun
  have hsteps : ∀ s, (∃ x, (parse s).map (s, ·) = .ok x) ↔ IsVersion s := by
    intro s
    unfold IsVersion
    cases parse s <;> simp [Except.map]
  rw [hread, mapM_eq_error_iff]
  simp only [map_eq_error_iff, hsteps]

theorem maxVersion_eq_error_iff {e : VersionError} :
    maxVersion texts = .error e ↔ sortVersions texts = .error e := map_eq_error_iff

/-- Where no number is overlong, texts fail, as malformed ones, exactly if one of them is not spelt
by pieces. -/
theorem exists_malformed_iff (h : ∀ t ∈ texts, ShortRuns t) :
    (∃ t, sortVersions texts = .error (.malformed t)) ↔
      ∃ t ∈ texts, ¬∃ p : Parts, p.Spells t := by
  constructor
  · rintro ⟨text, hfail⟩
    obtain ⟨before, t, after, rfl, -, ht⟩ := sortVersions_eq_error_iff.1 hfail
    have hmem : t ∈ before ++ t :: after := by simp
    refine ⟨t, hmem, fun hspelt => ?_⟩
    rw [((isVersion_iff_spells (h t hmem)).2 hspelt).parse] at ht
    cases ht
  · rintro ⟨t, ht, hnot⟩
    rcases hs : sortVersions texts with e | sorted
    · obtain ⟨before, u, after, rfl, -, hu⟩ := sortVersions_eq_error_iff.1 hs
      have hmem : u ∈ before ++ u :: after := by simp
      have hnotu : ¬∃ p : Parts, p.Spells u := by
        rw [← isVersion_iff_spells (h u hmem), IsVersion, hu]
        exact nofun
      rw [parse_of_not_spells hnotu] at hu
      exact ⟨some u, congrArg Except.error (Except.error.inj hu).symm⟩
    · have hversion := exists_sortVersions_iff.1 ⟨sorted, hs⟩ t ht
      exact absurd ((isVersion_iff_spells (h t ht)).1 hversion) hnot

/-! ## What sorting gives -/

/-- The texts in ascending order of their keys, those of one key as they were given. -/
structure Sorts (texts sorted : List String) : Prop where
  perm : sorted.Perm texts
  ascending : sorted.Pairwise KeyAtMost
  stable : ∀ k, sorted.filter (keyOf? · == some k) = texts.filter (keyOf? · == some k)

/-- The last of the texts whose key no other key exceeds. -/
structure IsHighest (texts : List String) (m : String) : Prop where
  highest : ∀ t ∈ texts, KeyAtMost t m
  last : ∃ before after, texts = before ++ m :: after ∧ ∀ t ∈ after, KeyBelow t m

theorem sorts_stableSort (h : ∀ t ∈ texts, IsVersion t) :
    Sorts texts (stableSort ascends texts) where
  perm := stableSort_perm ascends texts
  ascending := by
    refine (stableSort_pairwise ascends_trans ascends_total texts).imp_of_mem fun hs ht hst => ?_
    exact (keyAtMost_iff (h _ (mem_stableSort.1 hs)) (h _ (mem_stableSort.1 ht))).2 hst
  stable := by
    intro k
    refine filter_stableSort fun s hs hsk t ht htk => ascends_of_key (h s hs) (h t ht) ?_
    rw [beq_iff_eq.1 hsk, beq_iff_eq.1 htk]

theorem isHighest_of_getLast? (h : ∀ t ∈ texts, IsVersion t) {m : String}
    (hlast : (stableSort ascends texts).getLast? = some m) : IsHighest texts m := by
  have hgreatest := isLastGreatest_stableSort ascends_trans ascends_total hlast
  have hm : IsVersion m := h m (mem_stableSort.1 (List.mem_of_getLast? hlast))
  refine ⟨fun t ht => (keyAtMost_iff (h t ht) hm).2 (hgreatest.le ascends_total ht), ?_⟩
  obtain ⟨before, after, rfl, -, hafter⟩ := hgreatest
  exact ⟨before, after, rfl, fun t ht => (keyBelow_iff (h t (by simp [ht])) hm).2 (hafter t ht)⟩

/-- Texts that are given in another order have the same sequence of keys. -/
theorem map_keyOf?_stableSort (h : ∀ t ∈ texts, IsVersion t) {texts' : List String}
    (hperm : texts'.Perm texts) :
    (stableSort ascends texts').map keyOf? = (stableSort ascends texts).map keyOf? := by
  have hkeys : ∀ {l : List String}, l.Perm texts → (stableSort ascends l).map keyOf? =
      (stableSort Version.precedes (l.map spelt)).map fun v => some v.sortKey := by
    intro l hl
    rw [stableSort_map, List.map_map]
    refine List.map_congr_left fun t ht => ?_
    exact (h t (hl.mem_iff.1 (mem_stableSort.1 ht))).keyOf?
  have hversions : stableSort Version.precedes (texts'.map spelt) =
      stableSort Version.precedes (texts.map spelt) := by
    refine stableSort_eq_of_perm ?_ ?_ ?_ (hperm.map spelt)
    · exact fun _ _ _ => precedes_trans
    · exact precedes_total
    · exact fun _ _ => precedes_antisymm
  rw [hkeys hperm, hkeys (.refl texts), hversions]

/-- The empty text stands for the highest one only where there are no texts. -/
theorem getLast?_eq_empty_iff (h : ∀ t ∈ texts, IsVersion t) :
    (stableSort ascends texts).getLast?.getD "" = "" ↔ texts = [] := by
  constructor
  · intro hempty
    cases hlast : (stableSort ascends texts).getLast? with
    | none => simpa [← List.length_eq_zero_iff, length_stableSort] using hlast
    | some m =>
      rw [hlast] at hempty
      obtain rfl : m = "" := hempty
      obtain ⟨v, hv⟩ := h "" (mem_stableSort.1 (List.mem_of_getLast? hlast))
      have hmalformed : parse "" = .error (.malformed (some "")) := by decide +kernel
      rw [hmalformed] at hv
      cases hv
  · rintro rfl
    rfl

/-- **What comes of sorting texts.** Versions are rearranged into ascending order of their keys,
those of one key staying as they were given, and the highest one is the last of those whose key is
maximal. Sorting once more changes nothing, and the order in which the texts are given does not
matter for the keys. Of texts without overlong numbers, sorting and taking the highest fail exactly
if one is no version. -/
theorem sortVersions_sorts :
    (∀ texts : List String, (∀ t ∈ texts, isWritten (some t) = .ok true) →
      ∃ sorted highest, sortVersions texts = .ok sorted ∧ maxVersion texts = .ok highest ∧
        Sorts texts sorted ∧ sortVersions sorted = .ok sorted ∧
        (∀ texts' : List String, texts'.Perm texts → ∃ sorted',
          sortVersions texts' = .ok sorted' ∧ sorted'.map keyOf? = sorted.map keyOf?) ∧
        (texts ≠ [] → IsHighest texts highest) ∧ (highest = "" ↔ texts = [])) ∧
      ∀ texts : List String, (∀ t ∈ texts, ShortRuns t) →
        ((∃ t, sortVersions texts = .error (.malformed t)) ↔
          ∃ t ∈ texts, ¬∃ p : Parts, p.Spells t) ∧
        ((∃ t, maxVersion texts = .error (.malformed t)) ↔
          ∃ t ∈ texts, ¬∃ p : Parts, p.Spells t) := by
  refine ⟨fun texts hwritten => ?_, fun texts hshort => ?_⟩
  · have h : ∀ t ∈ texts, IsVersion t :=
      fun t ht => isVersion_iff_isWritten.2 (hwritten t ht)
    have hsorted : ∀ t ∈ stableSort ascends texts, IsVersion t :=
      fun t ht => h t (mem_stableSort.1 ht)
    refine ⟨stableSort ascends texts, _, sortVersions_eq_ok h, maxVersion_eq_ok h,
      sorts_stableSort h, ?_, fun texts' hperm => ?_, fun hne => ?_, getLast?_eq_empty_iff h⟩
    · rw [sortVersions_eq_ok hsorted,
        stableSort_eq_self (stableSort_pairwise ascends_trans ascends_total texts)]
    · exact ⟨_, sortVersions_eq_ok fun t ht => h t (hperm.mem_iff.1 ht),
        map_keyOf?_stableSort h hperm⟩
    · cases hlast : (stableSort ascends texts).getLast? with
      | none => exact absurd ((getLast?_eq_empty_iff h).1 (by rw [hlast]; rfl)) hne
      | some m => exact isHighest_of_getLast? h hlast
  · simp only [maxVersion_eq_error_iff]
    exact ⟨exists_malformed_iff hshort, exists_malformed_iff hshort⟩

/-- Two spellings of the highest version and two of a lower one, and a list with a text that is no
version. -/
theorem sortVersions_sorts_spellings :
    let texts := ["v1.10.0", "1.2", "v1.2.0", "v1.2.0-rc.1", "v1.10"]
    (∀ t ∈ texts, isWritten (some t) = .ok true) ∧
      (∃ sorted, sortVersions texts = .ok sorted ∧ Sorts texts sorted ∧
        sorted = ["v1.2.0-rc.1", "1.2", "v1.2.0", "v1.10.0", "v1.10"]) ∧
      maxVersion texts = .ok "v1.10" ∧ IsHighest texts "v1.10" ∧
      (∀ t ∈ ["v1.0.0", "newest"], ShortRuns t) ∧
      ∃ t, maxVersion ["v1.0.0", "newest"] = .error (.malformed t) := by
  intro texts
  have hwritten : ∀ t ∈ texts, isWritten (some t) = .ok true := by decide +kernel
  have hshort : ∀ t ∈ ["v1.0.0", "newest"], ShortRuns t := by
    intro t ht run hrun _
    have hlength : ∀ t ∈ ["v1.0.0", "newest"], t.toList.length ≤ maxDigits := by decide +kernel
    exact Nat.le_trans hrun.length_le (hlength t ht)
  obtain ⟨hsorts, hfails⟩ := sortVersions_sorts
  obtain ⟨sorted, highest, hs, hm, hsorted, -, -, hhighest, -⟩ := hsorts texts hwritten
  have hsorted' : sortVersions texts =
      .ok ["v1.2.0-rc.1", "1.2", "v1.2.0", "v1.10.0", "v1.10"] := by decide +kernel
  have hmax : maxVersion texts = .ok "v1.10" := by decide +kernel
  have hnone : Parts.ofText? (Text.strip "newest".toList) = none := by decide +kernel
  obtain rfl : highest = "v1.10" := Except.ok.inj (hm.symm.trans hmax)
  refine ⟨hwritten, ⟨sorted, hs, hsorted, Except.ok.inj (hs.symm.trans hsorted')⟩, hmax,
    hhighest (by decide), hshort, (hfails _ hshort).2.2 ⟨"newest", by simp, ?_⟩⟩
  rintro ⟨p, hp⟩
  have hread := Parts.spells_iff.1 hp
  rw [hnone] at hread
  cases hread

end PluginCatalog
