import EcmaCheck.Proofs.Acceptance
import EcmaCheck.Proofs.Printed.Opening

/-!
# Strict mode only restricts

What is accepted behind a `use strict` directive is accepted without it (`accepted_of_strict`). Behind the directive the
two texts go on alike, and the strict recognition is followed by the sloppy one, which is granted as many levels.
-/

namespace EcmaCheck

open Lexical Scanner Grammar

/-- A `use strict` directive. -/
def directivePieces : List Piece :=
  [.lexeme (.literal useStrict), Punctuator.semicolon.piece]

/-- The directive is read off where a text goes on with it and a blank. -/
theorem readsOff_directive {text rest : List Char} {n : Nat} {c : Char} (hc : c = ' ' ∨ c = '\n')
    (h : text.drop n = "\"use strict\";".toList ++ c :: rest) :
    ReadsOff [.literal useStrict, .punctuator .semicolon] (standing text true n) (standing text true (n + 13)) :=
  have hsound : Sound directivePieces = true := rfl
  readsOff_printed hsound (by simp [directivePieces, Punctuator.piece]) hc h

namespace Grammar

/-- Whatever surrounds the code of a strict script, the surroundings of a sloppy one are laxer. -/
theorem around_of_strict {s₁ : State} {text₁ text₂ : List Char} {token₁ token₂ : Token} {scanner₁ scanner₂ : Scanner}
    (h : State.Agrees { State.begun text₁ token₁ scanner₁ with context := { strict := true } } s₁) :
    Around s₁ (.begun text₂ token₂ scanner₂) where
  isModule := h.isModule.symm
  context := by
    rw [h.context]
    exact ⟨nofun, id, id, rfl, rfl, rfl, rfl, rfl, rfl, rfl, rfl, rfl⟩
  labels := h.labels.symm
  attachedLabels := h.attachedLabels.symm
  classDepth := h.classDepth.symm

end Grammar

/-- Whatever is accepted as strict code is accepted as sloppy code. -/
theorem accepted_of_strict {limit : Nat} {text : List Char} (h : Accepted limit ("\"use strict\";\n".toList ++ text)) :
    Accepted limit text := by
  obtain ⟨token, scanner, d, t, hstart, hcode, hend, hunended⟩ := code_of_accepted h
  have hdrop : (("\"use strict\";\n".toList ++ text).drop 0) = "\"use strict\";".toList ++ '\n' :: text := rfl
  obtain ⟨d₁, s₁, n₁, hagrees, hnext, hrun⟩ := exists_code_of_useStrict
    (.of_next (readsOff_directive (.inr rfl) hdrop) (by decide) hstart) hcode
  have hline : ("\"use strict\";\n".toList ++ text)[0 + 13]? = some '\n' := rfl
  obtain ⟨hmarked, token₁, hnext, htoken⟩ := exists_next_behind_blank hline (.inr rfl) (by decide) hnext
  have hr : Resumes ("\"use strict\";\n".toList ++ text) text 14 0 false := by
    refine ⟨List.length_append ▸ Nat.le_add_right 14 text.length, ?_⟩
    rw [blockEnd, List.append_nil]
    exact .of_append _ [] hmarked
  obtain ⟨token₂, scanner₂, hstart₂, hbegin⟩ := Resuming.exists_begin hr hnext
  have haround : Around s₁ (.begun text token₂ scanner₂) := around_of_strict hagrees
  have hlax : Prologues d₁ {} := ⟨fun _ => rfl, fun _ => rfl⟩
  have hfollows := Resuming.code_follows hr (Nat.le_refl limit) (.inl rfl) (State.begun text token₂ scanner₂).turns
    hagrees.isModule haround (hbegin htoken rfl rfl rfl) hlax hrun ⟨_, .done _, hunended⟩
  refine accepted_of_code hstart₂ ((ends_of_follows hfollows).imp fun _ t₂ ht => ?_)
  obtain ⟨_, _, halongside | hended⟩ := ht
  · exact (Resuming.twins_of_reached hr halongside.reached).isEnd ▸ hend
  · exact absurd hended.closed Bool.false_ne_true

/-- A call is no directive, and what follows the directive is a call. -/
theorem accepted_of_strict_call :
    Accepted 8 ("\"use strict\";\n".toList ++ "f()".toList) ∧ Accepted 8 "f()".toList := by
  have hstrict : Accepted 8 ("\"use strict\";\n".toList ++ "f()".toList) := by
    unfold Accepted
    decide +kernel
  exact ⟨hstrict, accepted_of_strict hstrict⟩

end EcmaCheck
