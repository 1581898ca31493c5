import Mathlib.Data.List.Perm.Subperm
import PluginCatalog.FileTree.Canonical
import PluginCatalog.Proofs.FileTree.Ways

/-!
# Where a path leads is its canonical location

`FileTree.canonical_of_leads`: a path that leads somewhere has this canonical location.

Resolving a link takes notes of the links that are being resolved, and stops at a link that is met
again. Neither of this happens on a way that leads somewhere: such a way has a length
(`FileTree.LeadsIn`), each link on it has a shorter one, and so none of them is met again.
-/

namespace PluginCatalog.FileTree

/-! ## The length of a way -/

/-- Names lead from a directory to a location in a number of steps. -/
inductive LeadsIn (t : FileTree) : Nat → Location → List String → Location → Prop where
  | here (here : Location) : LeadsIn t 0 here [] here
  | up {n : Nat} {here l : Location} {rest : List String} (h : LeadsIn t n here.dropLast rest l) :
    LeadsIn t (n + 1) here (".." :: rest) l
  | step {n : Nat} {here l : Location} {name : String} {rest : List String} (hn : name ≠ "..")
    (hnode : ∀ target, t.node? (here ++ [name]) ≠ some (.link target))
    (h : LeadsIn t n (here ++ [name]) rest l) : LeadsIn t (n + 1) here (name :: rest) l
  | link {m n : Nat} {here there l : Location} {name target : String} {rest : List String}
    (hn : name ≠ "..") (hnode : t.node? (here ++ [name]) = some (.link target))
    (ht : LeadsIn t m (origin here (Path.ofText target)) (Path.components target) there)
    (h : LeadsIn t n there rest l) : LeadsIn t (m + n + 1) here (name :: rest) l

theorem Leads.leadsIn {t : FileTree} {here l : Location} {names : List String}
    (h : Leads t here names l) : ∃ n, LeadsIn t n here names l := by
  induction h with
  | here here => exact ⟨0, .here here⟩
  | up h ih =>
    obtain ⟨n, hn⟩ := ih
    exact ⟨n + 1, .up hn⟩
  | step hn hnode h ih =>
    obtain ⟨n, h⟩ := ih
    exact ⟨n + 1, .step hn hnode h⟩
  | link hn hnode ht h iht ih =>
    obtain ⟨m, ht⟩ := iht
    obtain ⟨n, h⟩ := ih
    exact ⟨m + n + 1, .link hn hnode ht h⟩

/-- A way has one length. -/
theorem LeadsIn.unique {t : FileTree} {n n' : Nat} {here l l' : Location} {names : List String}
    (h : LeadsIn t n here names l) (h' : LeadsIn t n' here names l') : n' = n ∧ l' = l := by
  induction h generalizing n' l' with
  | here => cases h'; exact ⟨rfl, rfl⟩
  | up h ih =>
    cases h' with
    | up h' =>
      obtain ⟨rfl, rfl⟩ := ih h'
      exact ⟨rfl, rfl⟩
    | step hn => exact absurd rfl hn
    | link hn => exact absurd rfl hn
  | step hn hnode h ih =>
    cases h' with
    | up => exact absurd rfl hn
    | step _ _ h' =>
      obtain ⟨rfl, rfl⟩ := ih h'
      exact ⟨rfl, rfl⟩
    | link _ hl => exact absurd hl (hnode _)
  | link hn hnode ht h iht ih =>
    cases h' with
    | up => exact absurd rfl hn
    | step _ hl => exact absurd hnode (hl _)
    | link _ hl ht' h' =>
      obtain rfl : _ = _ := Node.link.inj (Option.some.inj (hl.symm.trans hnode))
      obtain ⟨rfl, rfl⟩ := iht ht'
      obtain ⟨rfl, rfl⟩ := ih h'
      exact ⟨rfl, rfl⟩

/-! ## Steps of resolving -/

section Steps

variable (t : FileTree) (known : Resolved) (here : Location)

theorem resolve_nil (fuel : Nat) : t.resolve fuel known here [] = ⟨here, true, known⟩ := by
  cases fuel <;> rfl

theorem resolve_up (fuel : Nat) (rest : List String) :
    t.resolve fuel known here (".." :: rest) = t.resolve fuel known here.dropLast rest := by
  cases fuel <;> simp only [resolve, resolveWith, if_true]

variable {name : String} (hn : name ≠ "..") (rest : List String)

include hn

theorem resolve_step (hnode : ∀ target, t.node? (here ++ [name]) ≠ some (.link target))
    (fuel : Nat) :
    t.resolve fuel known here (name :: rest) = t.resolve fuel known (here ++ [name]) rest := by
  cases fuel <;> simp only [resolve, resolveWith, if_neg hn]

theorem resolve_known {target : String} (hnode : t.node? (here ++ [name]) = some (.link target))
    {there : Location} (hk : known.lookup (here ++ [name]) = some (some there)) (fuel : Nat) :
    t.resolve fuel known here (name :: rest) = t.resolve fuel known there rest := by
  cases fuel <;> simp only [resolve, resolveWith, if_neg hn, hnode, hk]

theorem resolve_link {target : String} (hnode : t.node? (here ++ [name]) = some (.link target))
    (hk : known.lookup (here ++ [name]) = none) {fuel : Nat} {there : Location}
    {known' : Resolved} (hway : t.resolve fuel ((here ++ [name], none) :: known)
      (origin here (Path.ofText target)) (Path.components target) = ⟨there, true, known'⟩) :
    t.resolve (fuel + 1) known here (name :: rest) =
      t.resolve (fuel + 1) ((here ++ [name], some there) :: known') there rest := by
  simp only [resolve, resolveWith, if_neg hn, hnode, hk, hway, if_true]

end Steps

/-! ## Resolving a way that leads somewhere -/

/-- What is known of links is right, and each link that is being resolved has a way of length `n` at
least. -/
structure Sound (t : FileTree) (known : Resolved) (busy : List Location) (n : Nat) : Prop where
  nodup : busy.Nodup
  long : ∀ loc ∈ busy, ∃ target m there, t.node? loc = some (.link target) ∧
    LeadsIn t m (origin loc.dropLast (Path.ofText target)) (Path.components target) there ∧ n ≤ m
  busy_iff : ∀ loc, known.lookup loc = some none ↔ loc ∈ busy
  right : ∀ loc there, known.lookup loc = some (some there) → ∃ target m,
    t.node? loc = some (.link target) ∧
      LeadsIn t m (origin loc.dropLast (Path.ofText target)) (Path.components target) there

theorem Sound.mono {t : FileTree} {known : Resolved} {busy : List Location} {m n : Nat}
    (h : Sound t known busy n) (hm : m ≤ n) : Sound t known busy m where
  nodup := h.nodup
  long loc hloc := by
    obtain ⟨target, k, there, hnode, hk, hle⟩ := h.long loc hloc
    exact ⟨target, k, there, hnode, hk, Nat.le_trans hm hle⟩
  busy_iff := h.busy_iff
  right := h.right

/-- There are not more links being resolved than entries. -/
theorem Sound.length_le {t : FileTree} {known : Resolved} {busy : List Location} {n : Nat}
    (h : Sound t known busy n) : busy.length ≤ t.entries.length := by
  have hsub : busy ⊆ t.entries.map Prod.fst := by
    intro loc hloc
    obtain ⟨target, -, -, hnode, -⟩ := h.long loc hloc
    have hne : loc ≠ [] := by
      rintro rfl
      cases hnode
    exact List.mem_map_of_mem (f := Prod.fst) (mem_entries_of_node? hne hnode)
  have hle := (List.subperm_of_subset h.nodup hsub).length_le
  rwa [List.length_map] at hle

/-- A link that is not known yet begins to be resolved. -/
theorem Sound.begin {t : FileTree} {known : Resolved} {busy : List Location} {m n : Nat}
    (h : Sound t known busy n) {loc there : Location} {target : String}
    (hk : known.lookup loc = none) (hnode : t.node? loc = some (.link target))
    (ht : LeadsIn t m (origin loc.dropLast (Path.ofText target)) (Path.components target) there)
    (hm : m ≤ n) : Sound t ((loc, none) :: known) (loc :: busy) m where
  nodup := by
    refine List.nodup_cons.2 ⟨fun hb => ?_, h.nodup⟩
    rw [(h.busy_iff loc).2 hb] at hk
    cases hk
  long l hl := by
    rcases List.mem_cons.1 hl with rfl | hl
    · exact ⟨target, m, there, hnode, ht, Nat.le_refl m⟩
    · exact (h.mono hm).long l hl
  busy_iff l := by
    rw [lookup_cons, List.mem_cons]
    by_cases hl : l = loc
    · simp [hl]
    · simp [hl, h.busy_iff l]
  right l there hl := by
    rw [lookup_cons] at hl
    split at hl
    · cases hl
    · exact h.right l there hl

/-- A link has been resolved. -/
theorem Sound.finish {t : FileTree} {known known' : Resolved} {busy : List Location} {m n : Nat}
    (h : Sound t known busy n) {loc there : Location} {target : String}
    (h' : Sound t known' (loc :: busy) m) (hnode : t.node? loc = some (.link target))
    (ht : LeadsIn t m (origin loc.dropLast (Path.ofText target)) (Path.components target) there) :
    Sound t ((loc, some there) :: known') busy n where
  nodup := h.nodup
  long := h.long
  busy_iff l := by
    rw [lookup_cons]
    by_cases hl : l = loc
    · subst hl
      simpa using (List.nodup_cons.1 h'.nodup).1
    · rw [if_neg hl, h'.busy_iff, List.mem_cons]
      simp [hl]
  right l there' hl := by
    rw [lookup_cons] at hl
    split at hl
    next he =>
      subst he
      obtain rfl : there = there' := Option.some.inj (Option.some.inj hl)
      exact ⟨target, m, hnode, ht⟩
    next => exact h'.right l there' hl

/-- **Resolving a way that leads somewhere** gives where it leads. -/
theorem resolve_of_leadsIn {t : FileTree} {n : Nat} {here l : Location} {names : List String}
    (h : LeadsIn t n here names l) {fuel : Nat} {known : Resolved} {busy : List Location}
    (hs : Sound t known busy n) (hf : t.entries.length ≤ busy.length + fuel) :
    ∃ known', t.resolve fuel known here names = ⟨l, true, known'⟩ ∧ Sound t known' busy n := by
  induction h generalizing fuel known busy with
  | here here => exact ⟨known, resolve_nil t known here fuel, hs⟩
  | up h ih =>
    rw [resolve_up]
    obtain ⟨known', hr, hs'⟩ := ih (hs.mono (Nat.le_succ _)) hf
    exact ⟨known', hr, { hs' with long := hs.long }⟩
  | step hn hnode h ih =>
    rw [resolve_step t known _ hn _ hnode]
    obtain ⟨known', hr, hs'⟩ := ih (hs.mono (Nat.le_succ _)) hf
    exact ⟨known', hr, { hs' with long := hs.long }⟩
  | @link m n here there l name target rest hn hnode ht h iht ih =>
    have ht' : LeadsIn t m (origin (here ++ [name]).dropLast (Path.ofText target))
        (Path.components target) there := by rwa [List.dropLast_concat]
    rcases hk : known.lookup (here ++ [name]) with _ | _ | there'
    · -- The link is new: one more link is being resolved while its target is.
      have hbegin := hs.begin hk hnode ht' (by omega)
      have hlen := hbegin.length_le
      rw [List.length_cons] at hlen
      obtain ⟨fuel, rfl⟩ : ∃ k, fuel = k + 1 := ⟨fuel - 1, by omega⟩
      have hf' : t.entries.length ≤ ((here ++ [name]) :: busy).length + fuel := by
        rw [List.length_cons]
        omega
      obtain ⟨known₁, hr₁, hs₁⟩ := iht hbegin hf'
      rw [resolve_link t known here hn rest hnode hk hr₁]
      have hfinish := hs.finish hs₁ hnode ht'
      obtain ⟨known₂, hr₂, hs₂⟩ := ih (hfinish.mono (by omega)) hf
      exact ⟨known₂, hr₂, { hs₂ with long := hs.long }⟩
    · -- The link is being resolved: its way would be shorter than itself.
      obtain ⟨target', m', there', hnode', ht₂, hle⟩ := hs.long _ ((hs.busy_iff _).1 hk)
      obtain rfl : target' = target := Node.link.inj (Option.some.inj (hnode'.symm.trans hnode))
      have := (ht'.unique ht₂).1
      omega
    · obtain ⟨target', m', hnode', ht₂⟩ := hs.right _ _ hk
      obtain rfl : target' = target := Node.link.inj (Option.some.inj (hnode'.symm.trans hnode))
      obtain ⟨-, rfl⟩ := ht'.unique ht₂
      rw [resolve_known t known here hn rest hnode hk]
      obtain ⟨known', hr, hs'⟩ := ih (hs.mono (by omega)) hf
      exact ⟨known', hr, { hs' with long := hs.long }⟩

/-- **The canonical location** of a path is where it leads. -/
theorem canonical_of_leads {t : FileTree} {p : Path} {l : Location}
    (h : Leads t (origin t.working p) p.parts l) : t.canonical p = .ok l := by
  obtain ⟨n, hn⟩ := h.leadsIn
  have hs : Sound t [] [] n := ⟨List.nodup_nil, nofun, by simp, nofun⟩
  have hf : t.entries.length ≤ ([] : List Location).length + (t.entries.length + 1) := by
    rw [List.length_nil]
    omega
  obtain ⟨known, hr, -⟩ := resolve_of_leadsIn hn hs hf
  unfold canonical
  simp only [hr, if_true]

end PluginCatalog.FileTree
