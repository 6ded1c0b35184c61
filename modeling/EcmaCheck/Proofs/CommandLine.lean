import EcmaCheck.CommandLine
import EcmaCheck.Proofs.Verdict

/-!
# The command line agrees with the check of a file

The program tells what the check of the same file under the default options finds (`validate_agrees`). Its exit code is
read off the kind of the error and not off the outcome; that both tell the same rests on the verdicts having records of
the right kind (`Outcome.IsVerdict`).
-/

namespace EcmaCheck.CommandLine

variable {r : ErrorRecord}

/-! ## Exit codes -/

theorem Failure.exitCode_invalid (path : String) (h : (Outcome.invalid r).IsVerdict) :
    (invalid path r).exitCode = 1 := by
  have hkind : r.kind.isTextFailure = true := by
    rcases h with h | h <;> rw [h] <;> rfl
  exact if_pos hkind

theorem Failure.exitCode_tooDeep (path : String) (h : (Outcome.tooDeep r).IsVerdict) :
    (tooDeep path r).exitCode = 2 := by
  have hkind : r.kind = .tooDeep := h
  rw [exitCode, hkind]
  rfl

/-- Nothing is printed but for a program. -/
theorem output_of_exitCode_ne_zero {result : Except Failure Unit} (h : (complete result).exitCode ≠ 0) :
    (complete result).output = "" := by
  cases result with
  | ok => exact absurd rfl h
  | error => rfl

/-! ## Agreement -/

/-- A file that cannot be read is told alike by the program and by the check, with its path. -/
theorem validate_unreadable (path failure : String) :
    validate path (.error failure) = .error (.unreadable (path ++ ": " ++ failure)) ∧
      (complete (validate path (.error failure))).exitCode = 2 ∧
      checkFile ({} : Options).maxDepth path (.error failure) = .internalError (path ++ ": " ++ failure) :=
  ⟨rfl, rfl, rfl⟩

/-- The program finds of a file that can be read what the check of the file finds, and its exit code tells which it
is. -/
theorem validate_readable (path : String) (bytes : List UInt8) :
    let result := validate path (.ok bytes)
    let outcome := checkFile ({} : Options).maxDepth path (.ok bytes)
    (result = .ok () ∧ complete result = ⟨0, "OK\n", ""⟩ ↔ outcome = .ok) ∧
      (∀ r, result = .error (.invalid path r) ∧ (complete result).exitCode = 1 ↔ outcome = .invalid r) ∧
      (∀ r, result = .error (.tooDeep path r) ∧ (complete result).exitCode = 2 ↔ outcome = .tooDeep r) ∧
      ∀ detail, result ≠ .error (.internal detail) := by
  have hverdict : (checkBuffer { sourceType := .ofPath path } bytes).IsVerdict :=
    Outcome.isVerdict_of_fault? fun _ h => (bufferFault_in h).1
  simp only [validate, checkFile]
  cases hcheck : checkBuffer { sourceType := .ofPath path } bytes with
  | ok => exact ⟨⟨fun _ => rfl, fun _ => ⟨rfl, rfl⟩⟩, fun _ => ⟨nofun, nofun⟩, fun _ => ⟨nofun, nofun⟩, nofun⟩
  | invalid found =>
    rw [hcheck] at hverdict
    refine ⟨⟨nofun, nofun⟩, fun r => ⟨?_, ?_⟩, fun _ => ⟨nofun, nofun⟩, nofun⟩
    · rintro ⟨⟨⟩, -⟩
      rfl
    · rintro ⟨⟩
      exact ⟨rfl, Failure.exitCode_invalid path hverdict⟩
  | tooDeep found =>
    rw [hcheck] at hverdict
    refine ⟨⟨nofun, nofun⟩, fun _ => ⟨nofun, nofun⟩, fun r => ⟨?_, ?_⟩, nofun⟩
    · rintro ⟨⟨⟩, -⟩
      rfl
    · rintro ⟨⟩
      exact ⟨rfl, Failure.exitCode_tooDeep path hverdict⟩
  | internalError =>
    rw [hcheck] at hverdict
    exact hverdict.elim

/-- The program tells of a file what the check of the file under the default options finds. A failure to read it is an
error of its own, with the same words as the outcome; a file that can be read is a program with `OK` printed and exit
code 0, or the program tells the same record as the outcome, with exit code 1 for a text that is no program and 2 for
one that nests too deep, and nothing is printed. -/
theorem validate_agrees (path : String) (content : Except String (List UInt8)) :
    let result := validate path content
    let outcome := checkFile ({} : Options).maxDepth path content
    (∀ failure, content = .error failure →
      result = .error (.unreadable (path ++ ": " ++ failure)) ∧ (complete result).exitCode = 2 ∧
        outcome = .internalError (path ++ ": " ++ failure)) ∧
    (∀ bytes, content = .ok bytes →
      (result = .ok () ∧ complete result = ⟨0, "OK\n", ""⟩ ↔ outcome = .ok) ∧
        (∀ r, result = .error (.invalid path r) ∧ (complete result).exitCode = 1 ↔ outcome = .invalid r) ∧
        (∀ r, result = .error (.tooDeep path r) ∧ (complete result).exitCode = 2 ↔ outcome = .tooDeep r) ∧
        ∀ detail, result ≠ .error (.internal detail)) ∧
    ((complete result).exitCode ≠ 0 → (complete result).output = "") := by
  refine ⟨?_, ?_, output_of_exitCode_ne_zero⟩
  · rintro failure rfl
    exact validate_unreadable path failure
  · rintro bytes rfl
    exact validate_readable path bytes

end EcmaCheck.CommandLine
