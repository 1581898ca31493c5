import PluginCatalog.Proofs.Execution
import PluginCatalog.Proofs.Settings.Durations

/-!
# Which settings are loaded

Loading reads up to three durations, two of the file and one of the environment.

* `Settings.IsUsable` says that the durations of settings are numbers that are not below zero.
* `Settings.Configured` is the mapping that the file of the settings gives, `Settings.durations` are
  the values that are read as durations, in order.
* `Settings.load_eq_error_iff`: loading fails at the first of them that is not taken, and
  `Settings.isUsable_of_load_iff`: it gives usable settings unless one that counts is no number.
* `Settings.load_usable_iff`: loading gives usable settings or an error of settings, unless a
  duration is a fault or is taken although it is no number.
-/

namespace PluginCatalog.Settings

variable {env : Environment} {t : FileTree} {config : Option Path} {host : Host}
  {entries : List (Value × Value)} {s : Settings}

/-- The durations are numbers, and not below zero. -/
structure IsUsable (s : Settings) : Prop where
  delay : 0 ≤ s.delay
  limit : ∀ x ∈ s.limit, 0 ≤ x

/-! ## Sources -/

/-- The file from which settings are loaded. -/
def source? (env : Environment) (t : FileTree) (config : Option Path) (host : Host) :
    Option Path :=
  config <|> configPath? env t host

/-- The entries of that file: there are none if there is no file or nothing in it. -/
inductive Configured (env : Environment) (t : FileTree) (config : Option Path) (host : Host) :
    List (Value × Value) → Prop where
  | absent (h : source? env t config host = none) : Configured env t config host []
  | empty {path : Path} (h : source? env t config host = some path)
    (hv : readDocument t path = .ok .null) : Configured env t config host []
  | mapping {path : Path} {entries : List (Value × Value)}
    (h : source? env t config host = some path)
    (hv : readDocument t path = .ok (.map entries)) : Configured env t config host entries

/-- The pause that the file gives, or the usual one. -/
def fileDelay (entries : List (Value × Value)) : Value :=
  (Value.lookup? "upload_delay" entries).getD (.float usualDelay)

/-- The time limit that the file gives. -/
def fileLimit (entries : List (Value × Value)) : Option Value :=
  match Value.lookup? "imgpkg_timeout" entries with
  | none | some .null => none
  | some v => some v

/-- The pause that the environment gives. -/
def environmentDelay (env : Environment) : Option Value :=
  (env.given? "PLUGIN_INVENTORY_UPLOAD_DELAY").map .text

/-- The values that are read as durations, with the names of their settings, in order. -/
def durations (env : Environment) (entries : List (Value × Value)) : List (String × Value) :=
  ("upload_delay", fileDelay entries) ::
    (((fileLimit entries).map ("imgpkg_timeout", ·)).toList ++
      ((environmentDelay env).map ("PLUGIN_INVENTORY_UPLOAD_DELAY", ·)).toList)

/-- A value that counts: the pause of the environment, or else of the file, and the time limit. -/
inductive Counts (env : Environment) (entries : List (Value × Value)) : Value → Prop where
  | delay : Counts env entries ((environmentDelay env).getD (fileDelay entries))
  | limit {v : Value} (h : fileLimit entries = some v) : Counts env entries v

/-- How the loading of the entries of a file can go wrong without an error of settings. -/
inductive Slips (env : Environment) (entries : List (Value × Value)) : Prop where
  /-- The first duration that is not taken is a fault. -/
  | fault {before after : List (String × Value)} {d : String × Value}
    (read : durations env entries = before ++ d :: after)
    (taken : ∀ d ∈ before, d.2.IsTaken) (faulty : d.2.IsFaulty)
  /-- All durations are taken, and one that counts is read as no number. -/
  | nan {v : Value} (taken : ∀ d ∈ durations env entries, d.2.IsTaken)
    (counts : Counts env entries v) (nan : v.IsNan)

/-! ## The steps of loading -/

/-- The duration of a setting that may be there. -/
def optionalSeconds (name : String) : Option Value → Except Failure (Option Float)
  | none => .ok none
  | some v => seconds name v >>= fun x => .ok (some x)

theorem ofEntries_eq (entries : List (Value × Value)) :
    ofEntries entries =
      seconds "upload_delay" (fileDelay entries) >>= fun delay =>
      optionalSeconds "imgpkg_timeout" (fileLimit entries) >>= fun limit =>
      .ok {
        destination := (Value.lookup? "destination_repo" entries).getD .null
        delay
        executable := ((Value.lookup? "imgpkg_path" entries).filter (·.isTruthy)).getD
          (.text usualExecutable)
        limit } := by
  unfold ofEntries fileDelay fileLimit
  congr 1
  funext delay
  rcases Value.lookup? "imgpkg_timeout" entries with _ | v
  · rfl
  · cases v <;> rfl

theorem override_eq (env : Environment) (s : Settings) :
    s.override env =
      optionalSeconds "PLUGIN_INVENTORY_UPLOAD_DELAY" (environmentDelay env) >>= fun delay =>
      .ok { s with
        executable := ((env.given? "PLUGIN_INVENTORY_IMGPKG").map Value.text).getD s.executable
        delay := delay.getD s.delay } := by
  unfold override environmentDelay
  rcases env.given? "PLUGIN_INVENTORY_UPLOAD_DELAY" with _ | text
  · rfl
  · rw [Option.map_some, optionalSeconds, bind_assoc]
    rfl

theorem load_of_configured (h : Configured env t config host entries) :
    load env t config host = ofEntries entries >>= override env := by
  have husual : ofEntries [] = .ok usual := by rfl
  unfold load
  cases h with
  | absent h =>
    rw [source?] at h
    rw [h, husual]
    rfl
  | empty h hv =>
    rw [source?] at h
    rw [h]
    dsimp only
    rw [ofFile, hv]
  | mapping h hv =>
    rw [source?] at h
    rw [h]
    dsimp only
    rw [ofFile, hv]

/-! ## How loading ends -/

/-- The reading of a duration, its result aside. -/
def checkDuration (d : String × Value) : Except Failure Unit := seconds d.1 d.2 >>= fun _ => .ok ()

theorem checkDuration_eq_ok_iff {d : String × Value} :
    checkDuration d = .ok () ↔ d.2.IsTaken := by
  rw [← @seconds_eq_ok_iff d.2 d.1, checkDuration, bind_eq_ok_iff]
  simp

theorem checkDuration_eq_error_iff {d : String × Value} {e : Failure} :
    checkDuration d = .error e ↔ seconds d.1 d.2 = .error e := by
  rw [checkDuration, bind_eq_error_iff]
  simp

theorem forM_checkDuration_optional (name : String) (v : Option Value)
    (rest : List (String × Value)) :
    ((v.map (name, ·)).toList ++ rest).forM checkDuration =
      optionalSeconds name v >>= fun _ => rest.forM checkDuration := by
  cases v with
  | none => rfl
  | some v =>
    change (checkDuration (name, v) >>= fun _ => rest.forM checkDuration) = _
    rw [checkDuration, optionalSeconds, bind_assoc, bind_assoc]
    rfl

theorem load_map_unit (h : Configured env t config host entries) :
    (load env t config host).map (fun _ => ()) = (durations env entries).forM checkDuration := by
  have hdurations : (durations env entries).forM checkDuration =
      seconds "upload_delay" (fileDelay entries) >>= fun _ =>
      optionalSeconds "imgpkg_timeout" (fileLimit entries) >>= fun _ =>
      optionalSeconds "PLUGIN_INVENTORY_UPLOAD_DELAY" (environmentDelay env) >>= fun _ =>
      .ok () := by
    have hlast := forM_checkDuration_optional "PLUGIN_INVENTORY_UPLOAD_DELAY"
      (environmentDelay env) []
    rw [List.append_nil] at hlast
    change (checkDuration ("upload_delay", fileDelay entries) >>= fun _ => _) = _
    rw [checkDuration, bind_assoc]
    simp only [forM_checkDuration_optional, hlast]
    rfl
  rw [hdurations, load_of_configured h, ofEntries_eq, funext (override_eq env)]
  cases seconds "upload_delay" (fileDelay entries) with
  | error e => rfl
  | ok delay =>
    cases optionalSeconds "imgpkg_timeout" (fileLimit entries) with
    | error e => rfl
    | ok limit =>
      cases optionalSeconds "PLUGIN_INVENTORY_UPLOAD_DELAY" (environmentDelay env) <;> rfl

/-- **Loading fails** at the first duration that is not taken, in the way in which it is read. -/
theorem load_eq_error_iff (h : Configured env t config host entries) {e : Failure} :
    load env t config host = .error e ↔
      ∃ before d after, durations env entries = before ++ d :: after ∧
        (∀ d ∈ before, d.2.IsTaken) ∧ seconds d.1 d.2 = .error e := by
  have hload : load env t config host = .error e ↔
      (durations env entries).forM checkDuration = .error e := by
    rw [← load_map_unit h]
    cases load env t config host <;> simp [Except.map]
  rw [hload, forM_eq_error_iff]
  simp only [checkDuration_eq_ok_iff, checkDuration_eq_error_iff]

/-- **Loading gives settings** if all durations are taken, with those that count. -/
theorem load_eq_ok (h : Configured env t config host entries)
    (hs : load env t config host = .ok s) :
    (∀ d ∈ durations env entries, d.2.IsTaken) ∧
      (∃ name, seconds name ((environmentDelay env).getD (fileDelay entries)) = .ok s.delay) ∧
      optionalSeconds "imgpkg_timeout" (fileLimit entries) = .ok s.limit := by
  have htaken : (durations env entries).forM checkDuration = .ok () := by
    rw [← load_map_unit h, hs]
    rfl
  rw [load_of_configured h, ofEntries_eq] at hs
  obtain ⟨s₀, hs₀, hs⟩ := bind_eq_ok_iff.1 hs
  obtain ⟨delay, hdelay, hs₀⟩ := bind_eq_ok_iff.1 hs₀
  obtain ⟨limit, hlimit, hs₀⟩ := bind_eq_ok_iff.1 hs₀
  rw [override_eq] at hs
  obtain ⟨pause, hpause, hs⟩ := bind_eq_ok_iff.1 hs
  cases hs₀
  cases hs
  refine ⟨fun d hd => checkDuration_eq_ok_iff.1 (forM_eq_ok_iff.1 htaken d hd), ?_, hlimit⟩
  -- The pause of the environment counts if there is one.
  cases hv : environmentDelay env with
  | none =>
    rw [hv] at hpause
    cases hpause
    exact ⟨_, hdelay⟩
  | some v =>
    rw [hv] at hpause
    obtain ⟨x, hx, hpause⟩ := bind_eq_ok_iff.1 hpause
    cases hpause
    exact ⟨_, hx⟩

/-- **Settings are usable** unless a value that counts is read as no number. -/
theorem isUsable_of_load_iff (h : Configured env t config host entries)
    (hs : load env t config host = .ok s) : s.IsUsable ↔ ∀ v, Counts env entries v → ¬v.IsNan := by
  obtain ⟨-, ⟨name, hdelay⟩, hlimit⟩ := load_eq_ok h hs
  have hdelay := zero_le_of_seconds_iff hdelay
  have hlimit : (∀ x ∈ s.limit, 0 ≤ x) ↔ ∀ v, fileLimit entries = some v → ¬v.IsNan := by
    cases hv : fileLimit entries with
    | none =>
      rw [hv] at hlimit
      have hnone : s.limit = none := (Except.ok.inj hlimit).symm
      simp [hnone]
    | some v =>
      rw [hv] at hlimit
      obtain ⟨x, hx, hlimit⟩ := bind_eq_ok_iff.1 hlimit
      have hsome : s.limit = some x := (Except.ok.inj hlimit).symm
      simp [hsome, zero_le_of_seconds_iff hx]
  constructor
  · rintro hs v (_ | hv)
    · exact hdelay.1 hs.delay
    · exact hlimit.1 hs.limit v hv
  · exact fun hv => ⟨hdelay.2 (hv _ .delay), hlimit.2 fun v h => hv v (.limit h)⟩

/-! ## Usable settings -/

theorem Configured.unique {entries' : List (Value × Value)}
    (h : Configured env t config host entries)
    (h' : Configured env t config host entries') : entries = entries' := by
  cases h with
  | absent h => cases h' <;> simp_all
  | empty h hv => cases h' <;> simp_all
  | mapping h hv => cases h' <;> simp_all

/-- A file with a document gives the entries of settings, or is refused. -/
theorem configured_or_refused
    (h : ∀ path, source? env t config host = some path → ∃ v, readDocument t path = .ok v) :
    (∃ entries, Configured env t config host entries) ∨
      (∀ entries, ¬Configured env t config host entries) ∧
        ∃ path, load env t config host = .error (.config (.notAMapping path)) := by
  cases hs : source? env t config host with
  | none => exact .inl ⟨[], .absent hs⟩
  | some path =>
    obtain ⟨v, hv⟩ := h path hs
    have hload : load env t config host = ofFile t path >>= override env := by
      rw [source?] at hs
      unfold load
      rw [hs]
    have hunique {entries : List (Value × Value)} (h' : Configured env t config host entries) :
        v = .null ∨ v = .map entries := by
      cases h' <;> simp_all
    rw [hload, ofFile, hv]
    cases v with
    | null => exact .inl ⟨[], .empty hs hv⟩
    | map entries => exact .inl ⟨entries, .mapping hs hv⟩
    | _ => exact .inr ⟨fun entries h' => (hunique h').elim nofun nofun, path, rfl⟩

/-- A duration that is a fault ends the loading, if all before it are taken. -/
theorem load_eq_fault {before after : List (String × Value)} {d : String × Value}
    (h : Configured env t config host entries) (read : durations env entries = before ++ d :: after)
    (taken : ∀ d ∈ before, d.2.IsTaken) (faulty : d.2.IsFaulty) :
    ∃ cause, load env t config host = .error (.fault cause) := by
  obtain ⟨cause, hcause⟩ := (@seconds_eq_fault_iff d.2 d.1).2 faulty
  exact ⟨cause, (load_eq_error_iff h).2 ⟨before, d, after, read, taken, hcause⟩⟩

/-- **Loading the entries of a file** gives usable settings or an error of settings, unless they
slip. -/
theorem load_usable_of_configured (h : Configured env t config host entries) :
    ((∃ e, load env t config host = .error (.config e)) ∨
      ∃ s, load env t config host = .ok s ∧ s.IsUsable) ↔ ¬Slips env entries := by
  cases hl : load env t config host with
  | ok s =>
    obtain ⟨htaken, -, -⟩ := load_eq_ok h hl
    have husable := isUsable_of_load_iff h hl
    constructor
    · rintro (⟨e, he⟩ | ⟨s', hs', hs⟩)
      · cases he
      · cases hs'
        rintro (⟨read, taken, faulty⟩ | ⟨taken, counts, nan⟩)
        · obtain ⟨cause, hcause⟩ := load_eq_fault h read taken faulty
          cases hl.symm.trans hcause
        · exact husable.1 hs _ counts nan
    · exact fun hslips => .inr ⟨s, rfl, husable.2 fun v hv hnan => hslips (.nan htaken hv hnan)⟩
  | error e =>
    obtain ⟨before, d, after, read, taken, hd⟩ := (load_eq_error_iff h).1 hl
    have hreads := reads_seconds d.1 d.2
    rw [hd] at hreads
    cases hreads with
    | refused e ht hf =>
      refine iff_of_true (.inl ⟨e, rfl⟩) ?_
      rintro (⟨read', taken', faulty⟩ | ⟨taken', -, -⟩)
      · obtain ⟨cause, hcause⟩ := load_eq_fault h read' taken' faulty
        cases hl.symm.trans hcause
      · exact ht (taken' d (read ▸ List.mem_append_right before List.mem_cons_self))
    | fault cause ht hf =>
      exact iff_of_false nofun fun hslips => hslips (.fault read taken hf)

end PluginCatalog.Settings
