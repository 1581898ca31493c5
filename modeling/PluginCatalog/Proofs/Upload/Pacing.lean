import PluginCatalog.Proofs.Upload.Recording

/-!
# Pauses between calls

* `paced` are calls with the pauses between them: one before each image but the first.
* `Adds` says of a part of a run that it makes calls which are recorded, and pauses for them; the
  parts of a run are put together by `Adds.trans`. `Called` is a single call of a service that
  records it.
-/

namespace PluginCatalog

variable {σ : Type}

/-! ## Pauses -/

/-- Whether an image is published by a call. -/
def Call.isCopy : Call → Bool
  | copy .. => true
  | _ => false

/-- Calls of which the first has the given number, with a pause before each image but the one with
number 1. -/
def paced (delay : Float) : Nat → List Call → List Call
  | _, [] => []
  | number, call :: rest =>
    if call.isCopy && number > 1 && delay > 0 then
      .sleep delay :: call :: paced delay (number + 1) rest
    else call :: paced delay (number + 1) rest

theorem paced_append (delay : Float) (number : Nat) (calls more : List Call) :
    paced delay number (calls ++ more) =
      paced delay number calls ++ paced delay (number + calls.length) more := by
  induction calls generalizing number with
  | nil => rfl
  | cons call rest ih =>
    have hnumber : number + (call :: rest).length = number + 1 + rest.length := by
      rw [List.length_cons]
      omega
    rw [List.cons_append, paced, paced, ih, hnumber]
    split <;> rfl

/-- What is paused for is an image that is not the first one. -/
theorem paced_copy (delay : Float) (number : Nat) (image : Path) (address : String) :
    paced delay number [.copy image address] =
      (if number > 1 && delay > 0 then [.sleep delay] else []) ++ [.copy image address] := by
  simp only [paced, Call.isCopy, Bool.true_and]
  split <;> rfl

/-- What is not the call for an image is not paused for. -/
theorem paced_of_not_isCopy (delay : Float) (number : Nat) {call : Call}
    (h : call.isCopy = false) : paced delay number [call] = [call] := by
  simp [paced, h]

/-! ## Recorded calls -/

/-- A part of a run makes calls, and pauses before those that are paused for. -/
structure Adds (delay : Float) (w : World (σ × List Made)) (made : List Made)
    (w' : World (σ × List Made)) : Prop where
  recorded : w'.services.2 = w.services.2 ++ made
  calls : w'.calls = w.calls ++ paced delay (w.services.2.length + 1) (made.map Made.call)

namespace Adds

variable {delay : Float} {w w₁ w₂ : World (σ × List Made)} {made more : List Made}

theorem refl (delay : Float) (w : World (σ × List Made)) : Adds delay w [] w :=
  ⟨(List.append_nil _).symm, (List.append_nil _).symm⟩

theorem trans (h : Adds delay w made w₁) (h' : Adds delay w₁ more w₂) :
    Adds delay w (made ++ more) w₂ where
  recorded := by rw [h'.recorded, h.recorded, List.append_assoc]
  calls := by
    have hnumber : w₁.services.2.length + 1 =
        w.services.2.length + 1 + (made.map Made.call).length := by
      rw [h.recorded, List.length_append, List.length_map]
      omega
    rw [h'.calls, h.calls, hnumber, List.append_assoc, ← paced_append, ← List.map_append]

theorem noting (h : Adds delay w made w₁) (level : Level) (text : String) :
    Adds delay w made (w₁.noting level text) :=
  ⟨h.recorded, (World.calls_noting _ _ _).trans h.calls⟩

theorem withFiles (h : Adds delay w made w₁) (t : FileTree) :
    Adds delay w made { w₁ with files := t } := ⟨h.recorded, h.calls⟩

end Adds

/-- The outcome of a call in a run: an error of the service is one that the run can word. -/
def Made.report (x : Made) : Except Failure (Except ImageError Unit) :=
  match x.outcome with
  | .ok () => .ok (.ok ())
  | .error (.image cause) => .ok (.error cause)
  | .error failure => .error failure

/-- The world after a call of a service that records it. -/
structure Called (w : World (σ × List Made)) (x : Made) (w' : World (σ × List Made)) : Prop where
  files : w'.files = x.files
  recorded : w'.services.2 = w.services.2 ++ [x]
  calls : w'.calls = w.calls ++ [x.call]

/-- A call that is not for an image is not paused for. -/
theorem Called.adds {w w' : World (σ × List Made)} {x : Made} (h : Called w x w')
    (hc : x.call.isCopy = false) (delay : Float) : Adds delay w [x] w' :=
  ⟨h.recorded, by rw [h.calls, List.map_singleton, paced_of_not_isCopy delay _ hc]⟩

/-- A service that records its calls, after one. -/
theorem called_after {e : Event} {call : Call} (he : e.call? = some call)
    (w : World (σ × List Made)) (reply : Reply σ) :
    Called w (reply.made call) (w.after e (reply.recorded call w.services.2)) := by
  refine ⟨rfl, rfl, ?_⟩
  rw [World.calls_after, he]
  rfl

theorem ImageService.exec_copyImage_recorded (s : ImageService σ) (w : World (σ × List Made))
    (image : Path) (address : String) :
    ∃ x w', (s.recorded.copyImage image address).exec w = (x.report, w') ∧
      x.call = .copy image address ∧ Called w x w' :=
  ⟨(s.copy image address w.files w.services.1).made (.copy image address), _,
    ImageService.exec_calling _ _ _, rfl, called_after (e := .copy image address) rfl w _⟩

end PluginCatalog
