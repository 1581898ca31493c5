import Mathlib.Data.List.Infix
import PluginCatalog.Image.Tool

/-!
# When an image is taken to be absent

A fetch that fails leaves one text: the output of the program, or what stands for it when the
program did not come to its end. The codes of registries are looked for in this text. A run that is
broken leaves no text, but a fault.

* `NamesAbsence` says that a text holds such a code; `reportsAbsence_iff` is the search for them.
* `not_namesAbsence_limit`: what stands for a program that ran out of time never holds one, whatever
  the limit. `namesAbsence_unstarted_iff`: what stands for a program that was not started holds one
  if the reason does.
* `ImageTool.call_outcome`: how a call ends, by how the program ended.
* `ImageTool.pull_absent_iff`: when a fetch says that there is no such image.
-/

namespace PluginCatalog

variable {σ : Type}

/-! ## Codes of registries -/

/-- A text holds a code with which registries answer for an image that they do not have. -/
def NamesAbsence (output : String) : Prop :=
  ∃ code ∈ ["MANIFEST_UNKNOWN", "NAME_UNKNOWN", "NOT_FOUND"],
    ∃ before after, output = before ++ code ++ after

/-- A text stands in another one exactly if its characters do. -/
theorem exists_eq_append_iff {word s : String} :
    (∃ before after, s = before ++ word ++ after) ↔ word.toList <:+: s.toList := by
  constructor
  · rintro ⟨before, after, rfl⟩
    exact ⟨before.toList, after.toList, by simp⟩
  · rintro ⟨before, after, h⟩
    exact ⟨.ofList before, .ofList after, by simp [← String.toList_inj, ← h]⟩

/-- **The search for a code** finds one exactly if the text holds it. -/
theorem reportsAbsence_iff {output : String} :
    ImageTool.reportsAbsence output = true ↔ NamesAbsence output := by
  simp only [ImageTool.reportsAbsence, List.any_eq_true, Text.occurs_iff, NamesAbsence,
    exists_eq_append_iff]
  rfl

/-- A code holds an underscore and no blank. -/
theorem underscore_mem_code {code : String}
    (h : code ∈ ["MANIFEST_UNKNOWN", "NAME_UNKNOWN", "NOT_FOUND"]) :
    '_' ∈ code.toList ∧ ' ' ∉ code.toList := by
  revert code
  decide

theorem not_namesAbsence {output : String} (h : '_' ∉ output.toList) : ¬NamesAbsence output := by
  rintro ⟨code, hc, hin⟩
  exact h ((exists_eq_append_iff.1 hin).subset (underscore_mem_code hc).1)

/-! ## Texts without underscore -/

section Underscore

open Decimal

theorem underscore_not_mem_digits (n : Nat) : '_' ∉ digits n := by
  intro h
  exact absurd (Nat.isDigit_of_mem_toDigits (by decide) (by decide) h) (by decide)

theorem underscore_not_mem_pointed {ds : List Char} (h : '_' ∉ ds) : '_' ∉ pointed ds := by
  unfold pointed
  split
  · exact h
  · exact h
  · simpa using h

theorem underscore_not_mem_written {ds : List Char} (h : '_' ∉ ds) (exponent : Int) :
    '_' ∉ written ds exponent := by
  have htake (n : Nat) : '_' ∉ ds.take n := fun hm => h (List.mem_of_mem_take hm)
  have hdrop (n : Nat) : '_' ∉ ds.drop n := fun hm => h (List.mem_of_mem_drop hm)
  have hmagnitude := underscore_not_mem_digits exponent.natAbs
  have hpointed := underscore_not_mem_pointed h
  unfold written
  dsimp only
  split_ifs <;> simp [h, htake, hdrop, hmagnitude, hpointed]

/-- The text of a double holds no underscore. -/
theorem underscore_not_mem_text (x : Float) : '_' ∉ (Decimal.text x).toList := by
  have hmagnitude (bits : Nat) : '_' ∉ magnitudeText bits := by
    unfold magnitudeText
    split
    · decide
    · exact underscore_not_mem_written (underscore_not_mem_digits _) _
  unfold Decimal.text
  dsimp only
  split_ifs <;> simp [hmagnitude]

theorem underscore_not_mem_limit (limit : TimeLimit) : '_' ∉ limit.text.toList := by
  cases limit with
  | real x => exact underscore_not_mem_text x
  | whole n =>
    have hdigits (n : Nat) : '_' ∉ n.repr.toList := by
      rw [Nat.toList_repr]
      exact underscore_not_mem_digits n
    change '_' ∉ n.repr.toList
    rw [Int.repr_eq_if]
    split
    · exact hdigits _
    · rw [String.toList_append, List.mem_append, not_or]
      exact ⟨by decide, hdigits _⟩

end Underscore

/-- **What stands for a program that ran out of time** holds no code, whatever the limit. -/
theorem not_namesAbsence_limit (limit : TimeLimit) :
    ¬NamesAbsence s!"Command timed out after {limit.text} seconds" := by
  have htext : (s!"Command timed out after {limit.text} seconds").toList =
      "Command timed out after ".toList ++ limit.text.toList ++ " seconds".toList := by
    rw [← String.toList_append, ← String.toList_append]
    rfl
  refine not_namesAbsence ?_
  rw [htext]
  simp [underscore_not_mem_limit]

/-- A word with an underscore and without blanks stands behind a text without underscores that ends
with a blank, or nowhere. -/
theorem infix_of_append {word front rest : List Char} (hu : '_' ∈ word) (hb : ' ' ∉ word)
    (hfront : '_' ∉ front) (h : word <:+: front ++ [' '] ++ rest) : word <:+: rest := by
  rcases List.infix_append_iff.1 h with h | h | ⟨l₁, l₂, rfl, h₁, h₂⟩
  · have hmem := h.subset hu
    simp [hfront] at hmem
  · exact h
  · -- The part in front would end with the blank.
    rcases List.eq_nil_or_concat l₁ with rfl | ⟨l, c, rfl⟩
    · exact h₂.isInfix
    · rw [List.concat_eq_append] at h₁ hb
      have hc : [c] <:+ front ++ [' '] := (List.suffix_append l [c]).trans h₁
      obtain ⟨_, hc⟩ := hc
      obtain ⟨-, hc⟩ := List.append_inj' hc rfl
      simp [List.singleton_inj.1 hc] at hb

/-- **What stands for a program that was not started** holds a code if the reason does. -/
theorem namesAbsence_unstarted_iff {reason : String} :
    NamesAbsence s!"Error running imgpkg: {reason}" ↔ NamesAbsence reason := by
  unfold NamesAbsence
  simp only [exists_eq_append_iff]
  refine exists_congr fun code => and_congr_right fun hc => ?_
  obtain ⟨hu, hb⟩ := underscore_mem_code hc
  have htext : (s!"Error running imgpkg: {reason}").toList =
      "Error running imgpkg:".toList ++ [' '] ++ reason.toList := String.toList_append
  rw [htext]
  exact ⟨infix_of_append hu hb (by decide), fun h => h.trans (List.suffix_append _ _).isInfix⟩

/-! ## Calls -/

namespace ImageTool

/-- The outcome of a call, by how the program ended. -/
def outcomeOf (onFailure : String → ImageError) (limit : TimeLimit) (result : ProcessResult) :
    Except Failure Unit :=
  match result with
  | .broken cause => .error (.fault cause)
  | result =>
    match failureOutput limit result with
    | none => .ok ()
    | some output => .error (.image (onFailure output))

/-- **How a call ends** is told by how the program ended. -/
theorem call_outcome (name : String) (limit : Option TimeLimit) (program : Program σ)
    (arguments : List String) (given : List Path) (onFailure : String → ImageError)
    (t : FileTree) (state : σ) :
    let tool : ImageTool := ⟨.text name, limit⟩
    (tool.call program arguments given onFailure t state).outcome =
      outcomeOf onFailure tool.timeLimit
        (program (.text name :: arguments.map .text) t state).1 := by
  intro tool
  unfold call
  dsimp only
  rcases program (.text name :: arguments.map .text) t state with ⟨result, files, services⟩
  cases result with
  | finished code stdout stderr =>
    by_cases hc : code = 0
    · simp only [remarks, failureOutput, if_pos hc, outcomeOf]
    · simp only [remarks, failureOutput, if_neg hc, outcomeOf]
      rfl
  | timedOut => rfl
  | notStarted reason => rfl
  | broken cause => rfl

/-- A call succeeds exactly if the program ended with the exit code zero. -/
theorem outcomeOf_eq_ok_iff {onFailure : String → ImageError} {limit : TimeLimit}
    {result : ProcessResult} :
    outcomeOf onFailure limit result = .ok () ↔
      ∃ stdout stderr, result = .finished 0 stdout stderr := by
  cases result with
  | finished code stdout stderr => by_cases hc : code = 0 <;> simp [outcomeOf, failureOutput, hc]
  | timedOut => simp [outcomeOf, failureOutput]
  | notStarted reason => simp [outcomeOf, failureOutput]
  | broken cause => simp [outcomeOf]

/-- A call ends with a fault exactly if the run of the program is broken. -/
theorem outcomeOf_eq_fault_iff {onFailure : String → ImageError} {limit : TimeLimit}
    {result : ProcessResult} {cause : Fault} :
    outcomeOf onFailure limit result = .error (.fault cause) ↔ result = .broken cause := by
  cases result with
  | finished code stdout stderr => by_cases hc : code = 0 <;> simp [outcomeOf, failureOutput, hc]
  | timedOut => simp [outcomeOf, failureOutput]
  | notStarted reason => simp [outcomeOf, failureOutput]
  | broken cause => simp [outcomeOf]

/-- Else it makes an error of the output. -/
theorem outcomeOf_eq_image_iff {onFailure : String → ImageError} {limit : TimeLimit}
    {result : ProcessResult} {e : ImageError} :
    outcomeOf onFailure limit result = .error (.image e) ↔
      ∃ text, failureOutput limit result = some text ∧ onFailure text = e := by
  cases result with
  | finished code stdout stderr => by_cases hc : code = 0 <;> simp [outcomeOf, failureOutput, hc]
  | timedOut => simp [outcomeOf, failureOutput]
  | notStarted reason => simp [outcomeOf, failureOutput]
  | broken cause => simp [outcomeOf, failureOutput]

/-- What can be said of the output of a program that failed. -/
theorem exists_failureOutput_iff {limit : TimeLimit} {result : ProcessResult}
    {P : String → Prop} :
    (∃ text, failureOutput limit result = some text ∧ P text) ↔
      (∃ code stdout stderr, result = .finished code stdout stderr ∧ code ≠ 0 ∧
        P (stdout ++ stderr)) ∨
      (result = .timedOut ∧ P s!"Command timed out after {limit.text} seconds") ∨
      ∃ reason, result = .notStarted reason ∧ P s!"Error running imgpkg: {reason}" := by
  cases result with
  | finished code stdout stderr => by_cases hc : code = 0 <;> simp [failureOutput, hc]
  | timedOut => simp [failureOutput]
  | notStarted reason => simp [failureOutput]
  | broken cause => simp [failureOutput]

/-- The errors of a fetch, by the output. -/
theorem pull_outcome (name : String) (limit : Option TimeLimit) (program : Program σ)
    (address directory : String) (t : FileTree) (state : σ) :
    let tool : ImageTool := ⟨.text name, limit⟩
    let arguments := ["pull", "-i", address, "-o", directory]
    let output := failureOutput tool.timeLimit
      (program (.text name :: arguments.map .text) t state).1
    let outcome := (tool.pull program address directory t state).outcome
    ((∃ message, outcome = .error (.image (.absent message))) ↔
        ∃ text, output = some text ∧ NamesAbsence text) ∧
      ((∃ message, outcome = .error (.image (.failed message))) ↔
        ∃ text, output = some text ∧ ¬NamesAbsence text) := by
  intro tool arguments output outcome
  have hpull (e : ImageError) : outcome = .error (.image e) ↔
      ∃ text, output = some text ∧ (if reportsAbsence text then
        .absent s!"image {address} does not exist"
      else .failed s!"pulling image {address} failed: {Text.stripped text}") = e := by
    rw [← outcomeOf_eq_image_iff, ← call_outcome name limit program arguments [] _ t state]
    rfl
  simp only [hpull]
  constructor
  · constructor
    · rintro ⟨message, text, ho, he⟩
      cases hr : reportsAbsence text with
      | true => exact ⟨text, ho, reportsAbsence_iff.1 hr⟩
      | false => simp [hr] at he
    · rintro ⟨text, ho, hn⟩
      exact ⟨_, text, ho, by rw [if_pos (reportsAbsence_iff.2 hn)]⟩
  · constructor
    · rintro ⟨message, text, ho, he⟩
      refine ⟨text, ho, fun hn => ?_⟩
      simp [reportsAbsence_iff.2 hn] at he
    · rintro ⟨text, ho, hn⟩
      exact ⟨_, text, ho, by rw [if_neg (mt reportsAbsence_iff.1 hn)]⟩

/-- A call whose failures are all of one kind does not say that an image is absent. -/
theorem outcomeOf_ne_absent (onFailure : String → String) (limit : TimeLimit)
    (result : ProcessResult) (message : String) :
    outcomeOf (fun text => .failed (onFailure text)) limit result ≠
      .error (.image (.absent message)) := by
  rw [Ne, outcomeOf_eq_image_iff]
  rintro ⟨text, -, h⟩
  cases h

/-- **When a fetch says that there is no such image**: when the program came to its end without
success and what it wrote holds a code of a registry, and besides when the program could not be
started and the reason holds one. A fetch succeeds exactly with the exit code zero, ends with a
fault exactly if the run is broken, and fails in the other way in all other cases. Publishing never
says that there is no such image. -/
theorem pull_absent_iff (name : String) (limit : Option TimeLimit) (program : Program σ)
    (address directory : String) (t : FileTree) (state : σ) :
    let tool : ImageTool := ⟨.text name, limit⟩
    let arguments := ["pull", "-i", address, "-o", directory]
    let result := (program (.text name :: arguments.map .text) t state).1
    let outcome := (tool.pull program address directory t state).outcome
    (outcome = .ok () ↔ ∃ stdout stderr, result = .finished 0 stdout stderr) ∧
      (∀ cause, outcome = .error (.fault cause) ↔ result = .broken cause) ∧
      ((∃ message, outcome = .error (.image (.absent message))) ↔
        (∃ code stdout stderr, result = .finished code stdout stderr ∧ code ≠ 0 ∧
          NamesAbsence (stdout ++ stderr)) ∨
        ∃ reason, result = .notStarted reason ∧ NamesAbsence reason) ∧
      ((∃ message, outcome = .error (.image (.failed message))) ↔
        (∃ code stdout stderr, result = .finished code stdout stderr ∧ code ≠ 0 ∧
          ¬NamesAbsence (stdout ++ stderr)) ∨
        result = .timedOut ∨ ∃ reason, result = .notStarted reason ∧ ¬NamesAbsence reason) ∧
      ∀ archive destination paths message,
        (tool.copy program archive destination t state).outcome ≠
            .error (.image (.absent message)) ∧
          (tool.push program destination paths t state).outcome ≠
            .error (.image (.absent message)) := by
  intro tool arguments result outcome
  have houtcome : outcome = outcomeOf _ tool.timeLimit result :=
    call_outcome name limit program arguments [] _ t state
  obtain ⟨habsent, hfailed⟩ := pull_outcome name limit program address directory t state
  rw [exists_failureOutput_iff] at habsent hfailed
  simp only [not_namesAbsence_limit, namesAbsence_unstarted_iff, and_false, false_or,
    not_false_eq_true, and_true] at habsent hfailed
  refine ⟨?_, fun cause => ?_, habsent, hfailed, ?_⟩
  · rw [houtcome, outcomeOf_eq_ok_iff]
  · rw [houtcome, outcomeOf_eq_fault_iff]
  intro archive destination paths message
  constructor
  · refine ne_of_eq_of_ne (call_outcome name limit program _ [] _ t state) ?_
    exact outcomeOf_ne_absent _ _ _ _
  · refine ne_of_eq_of_ne (call_outcome name limit program _ _ _ t state) ?_
    exact outcomeOf_ne_absent _ _ _ _

/-- **A program that is not there is taken for an image that is not there**: its path holds a code
of a registry, and the system names the path in the reason. -/
theorem pull_absent_unstarted :
    let tool : ImageTool := ⟨.text "NOT_FOUND/imgpkg", none⟩
    let program : Program Unit := fun _ t state =>
      (.notStarted "[Errno 2] No such file or directory: 'NOT_FOUND/imgpkg'", t, state)
    (tool.pull program "r.io/inventory" "out" ⟨[], []⟩ ()).outcome =
      .error (.image (.absent "image r.io/inventory does not exist")) := by
  decide +kernel

end ImageTool

end PluginCatalog
