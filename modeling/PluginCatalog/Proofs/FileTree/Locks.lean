import PluginCatalog.Proofs.FileTree.MakingWay

/-!
# Locks of files

A lock is taken by emptying or making a file, which need not be apart from other files: links and
second names may lead to it.

* `FileTree.takeLock_inv`: what taking a lock does, if the system allows it.
* `FileTree.find?_takeLock`: what is not the file of the lock is as it was.
* `FileTree.Lockable t p stores`: the lock of `p` can be taken, and is the file of none of the given
  paths. It stays so when a file gets new content (`FileTree.Lockable.setContent`) and when another
  lock is taken (`FileTree.Lockable.takeLock`).
-/

namespace PluginCatalog

/-- Whether a lock can be taken at a spot. -/
def Spot.CanLock : Spot → Prop
  | free _ | taken _ (.file _ _) | taken _ .special => True
  | taken _ .directory | taken _ (.link _) => False

namespace FileTree

variable {t t' : FileTree} {p q lock : Path}

/-! ## New files -/

section NewFile

variable {loc : Location} {serial : Nat} {content : Content}

/-- Where a way leads after a file was made. -/
theorem follow_set_file (serial : Nat) (content : Content) (hl : t.follow lock = .ok (.free loc))
    {spot : Spot} (h : t.follow q = .ok spot) :
    (t.set loc (.file serial content)).follow q = .ok (spot.filled loc (.file serial content)) := by
  obtain ⟨hne, hfree⟩ := (reaches_of_follow hl).node?_free
  exact walk_set hne hfree (file_ne_link serial content) h

/-- A way that is there after a file was made was there before. -/
theorem follow_of_set_file (hl : t.follow lock = .ok (.free loc)) {spot' : Spot}
    (h : (t.set loc (.file serial content)).follow q = .ok spot') :
    ∃ spot, t.follow q = .ok spot ∧ spot' = spot.filled loc (.file serial content) := by
  obtain ⟨hne, hfree⟩ := (reaches_of_follow hl).node?_free
  exact walk_of_set hne hfree (file_ne_directory serial content) (file_ne_link serial content) h

/-- A file that a path leads to then was there before, or is the new one, which has a number of its
own. -/
theorem file_of_set_file (hl : t.follow lock = .ok (.free loc)) {l : Location} {n : Nat}
    {c : Content}
    (h : (t.set loc (.file t.freshSerial content)).follow q = .ok (.taken l (.file n c))) :
    (n < t.freshSerial ∧ t.follow q = .ok (.taken l (.file n c))) ∨
      (n = t.freshSerial ∧ t.follow q = .ok (.free loc) ∧ c = content) := by
  obtain ⟨spot, hf, hspot⟩ := follow_of_set_file hl h
  cases spot with
  | taken l' node =>
    obtain ⟨rfl, rfl⟩ := Spot.taken.inj hspot
    exact .inl ⟨lt_freshSerial ((reaches_of_follow hf).node?_taken nofun).2, hf⟩
  | free l' =>
    rw [Spot.filled] at hspot
    split at hspot
    next hloc =>
      obtain ⟨rfl, rfl⟩ := Node.file.inj (Spot.taken.inj hspot).2
      exact .inr ⟨rfl, hloc ▸ hf, rfl⟩
    next => cases hspot

/-- The place to which a path leads if nothing is there yet. -/
def freeAt? (t : FileTree) (p : Path) : Option Location :=
  match t.follow p with
  | .ok (.free loc) => some loc
  | _ => none

/-- Two paths lead to one place at which nothing is yet. -/
def Meet (t : FileTree) (p q : Path) : Prop := (t.freeAt? p).isSome ∧ t.freeAt? p = t.freeAt? q

instance (t : FileTree) (p q : Path) : Decidable (t.Meet p q) :=
  inferInstanceAs (Decidable (_ ∧ _))

/-- Another path leads to a new file only if it led to the same free place. -/
theorem Meet.of_set_file (hl : t.follow lock = .ok (.free loc))
    (hs : (t.set loc (.file t.freshSerial content)).SameFile q lock) : t.Meet q lock := by
  obtain ⟨lq, ll, n, c, c', hfq', hfl'⟩ := hs
  rcases file_of_set_file hl hfl' with ⟨-, hfl⟩ | ⟨hn, -, -⟩
  · exact absurd (hl.symm.trans hfl) nofun
  · rcases file_of_set_file hl hfq' with ⟨hlt, -⟩ | ⟨-, hfq, -⟩
    · exact absurd hn (Nat.ne_of_lt hlt)
    · simp [Meet, freeAt?, hfq, hl]

/-- Nothing changes but at the paths of the new file. -/
theorem find?_set_file (hl : t.follow lock = .ok (.free loc))
    (hq : ¬(t.set loc (.file serial content)).SameFile lock q) :
    (t.set loc (.file serial content)).find? q = t.find? q := by
  rcases hf : t.follow q with e | spot
  · rcases hf' : (t.set loc (.file serial content)).follow q with e' | spot'
    · simp only [find?, hf, hf']
    · obtain ⟨spot, hok, -⟩ := follow_of_set_file hl hf'
      cases hok.symm.trans hf
  · have hf' := follow_set_file serial content hl hf
    cases spot with
    | taken l node => simp only [find?, hf, hf', Spot.filled]
    | free l =>
      by_cases hloc : l = loc
      · subst hloc
        have hl' := follow_set_file serial content hl hl
        rw [Spot.filled, if_pos rfl] at hf' hl'
        exact absurd ⟨l, l, serial, content, content, hl', hf'⟩ hq
      · rw [Spot.filled, if_neg hloc] at hf'
        simp only [find?, hf, hf']

end NewFile

/-! ## Taking a lock -/

/-- A special file is taken as it is, a file is emptied, and where nothing is a file is made. -/
theorem takeLock_inv (h : t.takeLock lock = .ok t') :
    (t' = t ∧ t.find? lock = some .special) ∨
      (∃ loc serial old, t.follow lock = .ok (.taken loc (.file serial old)) ∧
        t' = t.setContent serial (.text "")) ∨
      ∃ loc, t.follow lock = .ok (.free loc) ∧
        t' = t.set loc (.file t.freshSerial (.text "")) := by
  unfold takeLock at h
  split at h
  next hs => exact .inl ⟨(Except.ok.inj h).symm, hs⟩
  next => exact .inr (write_inv h)

theorem exists_takeLock_iff :
    (∃ t', t.takeLock lock = .ok t') ↔ ∃ spot, t.follow lock = .ok spot ∧ spot.CanLock := by
  constructor
  · rintro ⟨t', h⟩
    rcases takeLock_inv h with ⟨-, hs⟩ | ⟨loc, serial, old, hl, -⟩ | ⟨loc, hl, -⟩
    · obtain ⟨loc, hl⟩ := follow_of_find? hs
      exact ⟨_, hl, trivial⟩
    · exact ⟨_, hl, trivial⟩
    · exact ⟨_, hl, trivial⟩
  · rintro ⟨spot, hl, hcan⟩
    cases spot with
    | free loc => exact ⟨_, by simp only [takeLock, find?, write, hl]; rfl⟩
    | taken loc node =>
      cases node with
      | directory => exact hcan.elim
      | link target => exact hcan.elim
      | file serial old => exact ⟨_, by simp only [takeLock, find?, write, hl]; rfl⟩
      | special => exact ⟨t, by simp only [takeLock, find?, hl]⟩

/-! ## What is not the lock -/

/-- What leads to something does not come to be one file with another path. -/
theorem SameFile.of_takeLock (h : t.takeLock lock = .ok t') (hq : t.pathExists q)
    (hs : t'.SameFile p q) : t.SameFile p q := by
  rcases takeLock_inv h with ⟨rfl, -⟩ | ⟨loc, serial, old, -, rfl⟩ | ⟨loc, hl, rfl⟩
  · exact hs
  · exact hs.of_setContent
  · obtain ⟨lp, lq, n, c, c', hfp', hfq'⟩ := hs
    obtain ⟨l, node, hq⟩ := follow_of_pathExists hq
    rcases file_of_set_file hl hfq' with ⟨hlt, hfq⟩ | ⟨-, hfree, -⟩
    · rcases file_of_set_file hl hfp' with ⟨-, hfp⟩ | ⟨hn, -, -⟩
      · exact ⟨lp, lq, n, c, c', hfp, hfq⟩
      · exact absurd hn (Nat.ne_of_lt hlt)
    · exact absurd (hq.symm.trans hfree) nofun

/-- **What is not the file of the lock is as it was.** -/
theorem find?_takeLock (h : t.takeLock lock = .ok t') (hq : ¬t'.SameFile lock q) :
    t'.find? q = t.find? q := by
  rcases takeLock_inv h with ⟨rfl, -⟩ | ⟨loc, serial, old, hl, rfl⟩ | ⟨loc, hl, rfl⟩
  · rfl
  · exact find?_setContent_of_not_sameFile hl (mt (fun hs => hs.setContent _ _) hq) _
  · exact find?_set_file hl hq

/-- A file that is not the lock is not emptied. -/
theorem find?_takeLock_of_apart (h : t.takeLock lock = .ok t') (hq : t.pathExists q)
    (ha : ¬t.SameFile lock q) : t'.find? q = t.find? q :=
  find?_takeLock h (mt (SameFile.of_takeLock h hq) ha)

/-- The file of the lock is empty under all its names. -/
theorem file?_of_lock (h : t.takeLock lock = .ok t') (hs : t'.SameFile lock q) :
    t'.file? q = some (.text "") := by
  obtain ⟨ll, lq, n, c, c', hfl', hfq'⟩ := hs
  rcases takeLock_inv h with ⟨rfl, hspecial⟩ | ⟨loc, serial, old, hl, rfl⟩ | ⟨loc, hl, rfl⟩
  · simp [find?, hfl'] at hspecial
  · obtain ⟨o, hfl⟩ := follow_of_setContent hfl'
    obtain ⟨o', hfq⟩ := follow_of_setContent hfq'
    obtain ⟨rfl, -⟩ := Node.file.inj (Spot.taken.inj (Except.ok.inj (hl.symm.trans hfl))).2
    exact file?_setContent hfq _
  · rcases file_of_set_file hl hfl' with ⟨-, hfl⟩ | ⟨hn, -, -⟩
    · cases hl.symm.trans hfl
    · rcases file_of_set_file hl hfq' with ⟨hlt, -⟩ | ⟨-, -, hc⟩
      · exact absurd hn (Nat.ne_of_lt hlt)
      · simp only [file?, find?, hfq', hc]

/-! ## Locks that can be taken -/

/-- The lock of a path can be taken, and is the file of none of some paths. -/
structure Lockable (t : FileTree) (p : Path) (stores : List Path) : Prop where
  takes : ∃ t', t.takeLock p.lock = .ok t'
  apart : ∀ q ∈ stores, ¬t.SameFile p.lock q

variable {stores : List Path}

/-- A lock that is not there yet can be taken, and is no other file. -/
theorem Lockable.of_free (loc : Location) (h : t.follow p.lock = .ok (.free loc)) :
    t.Lockable p stores where
  takes := exists_takeLock_iff.2 ⟨_, h, trivial⟩
  apart := by
    rintro q - ⟨l, -, n, c, -, hl, -⟩
    cases h.symm.trans hl

theorem Lockable.mono {fewer : List Path} (h : t.Lockable p stores) (hf : fewer ⊆ stores) :
    t.Lockable p fewer :=
  ⟨h.takes, fun q hq => h.apart q (hf hq)⟩

/-- A lock can be taken as before when a file got new content. -/
theorem Lockable.setContent (h : t.Lockable p stores) (serial : Nat) (content : Content) :
    (t.setContent serial content).Lockable p stores where
  takes := by
    obtain ⟨spot, hl, hcan⟩ := exists_takeLock_iff.1 h.takes
    refine exists_takeLock_iff.2 ⟨_, by rw [follow_setContent, hl]; rfl, ?_⟩
    cases spot with
    | free loc => trivial
    | taken loc node => cases node <;> exact hcan
  apart q hq hs := h.apart q hq hs.of_setContent

/-- A lock can be taken as before, and again, when a lock was taken. -/
theorem Lockable.takeLock (h : t.Lockable p stores) (hstores : ∀ q ∈ stores, t.pathExists q)
    (ht : t.takeLock lock = .ok t') : t'.Lockable p stores where
  takes := by
    obtain ⟨spot, hl, hcan⟩ := exists_takeLock_iff.1 h.takes
    rcases takeLock_inv ht with ⟨rfl, -⟩ | ⟨loc, serial, old, -, rfl⟩ | ⟨loc, hlock, rfl⟩
    · exact h.takes
    · exact (h.setContent serial _).takes
    · refine exists_takeLock_iff.2 ⟨_, follow_set_file _ _ hlock hl, ?_⟩
      cases spot with
      | free l =>
        rw [Spot.filled]
        split <;> trivial
      | taken l node => exact hcan
  apart q hq hs := h.apart q hq (hs.of_takeLock ht (hstores q hq))

end FileTree

end PluginCatalog
