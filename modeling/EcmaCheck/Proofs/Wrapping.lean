import EcmaCheck.Proofs.Acceptance
import EcmaCheck.Proofs.Printed.Opening

/-!
# Scripts as bodies of functions

What is accepted as a script is accepted as the body of a function, one level deeper (`accepted_in_function`). The code
of the body goes on as that of the script does, up to the end of the script (`script_as_body`); there the body's block
is closed, and a statement that the end of the script closed is closed by the brace.
-/

namespace EcmaCheck

open Lexical Scanner Grammar

namespace Grammar

/-- The first token of a body, inside a plain function that a script declares. -/
def State.InBody (text : List Char) (token : Token) (scanner : Scanner) (s : State) : Prop :=
  ((State.begun text token scanner).deepened.inside (State.begun text token scanner).functionContext).Agrees s

/-- What surrounds a script is laxer inside a function that it declares. -/
theorem around_of_inBody {text₁ text₂ : List Char} {token₁ token₂ : Token} {scanner₁ scanner₂ : Scanner} {s₂ : State}
    (h : s₂.InBody text₂ token₂ scanner₂) : Around (.begun text₁ token₁ scanner₁) s₂ where
  isModule := h.isModule
  context := by
    rw [h.context]
    exact ⟨id, fun _ => rfl, fun _ => rfl, rfl, rfl, rfl, rfl, rfl, rfl, rfl, rfl, rfl⟩
  labels := h.labels
  attachedLabels := h.attachedLabels
  classDepth := h.classDepth

variable {text text₂ : List Char} {limit levels k : Nat} {token : Token} {scanner : Scanner}

/-- The body that a script becomes goes on to the last character, with which its block is closed. -/
theorem script_as_body (hr : Resumes text text₂ 0 k true) (hle : limit ≤ levels) (h : Accepted limit text) :
    ∃ first after, (standing text₂ true k).next .regExp = (.ok first, after) ∧
      ∀ {s : State} {line : Bool}, s.InBody text₂ token scanner → s.token = { first with newlineBefore := line } →
        s.scanner = after →
          Ends Stalled (fun _ t => Closing text₂ t.input) (code (derive levels) false s.turns {} s) := by
  obtain ⟨token₁, scanner₁, d, t, hstart, hrun, hend, hunended⟩ := code_of_accepted h
  obtain ⟨token₂, scanner₂, hnext, hbegin⟩ := Resuming.exists_begin hr hstart
  refine ⟨token₂, scanner₂, hnext, fun {s line} hs htoken hscanner => ?_⟩
  have haround : Around (.begun text token₁ scanner₁) s := around_of_inBody hs
  have hfollows := Resuming.code_follows hr hle (.inr ⟨rfl, rfl⟩) s.turns rfl haround
    (hbegin rfl rfl htoken hscanner) ⟨id, id⟩ hrun ⟨_, .done _, hunended⟩
  refine (ends_of_follows hfollows).imp fun _ t₂ ht => ?_
  exact closing_of_ended hr (ended_of_isEnd rfl ht.2.2 hend)

end Grammar

/-- A function of one script whose body is another. -/
def functionText (n : Variable) (ps : List Variable) (blank : Char) (body : List Char) : List Char :=
  printed (functionPieces n ps) ++ blank :: (body ++ "\n\x7d".toList)

section

variable {n : Variable} {ps : List Variable} {c : Char} {text : List Char} {limit levels : Nat}

/-- The body begins behind the blank. -/
theorem resumes_functionText (hmark : ¬ Marked text) :
    Resumes text (functionText n ps c text) 0 ((printed (functionPieces n ps)).length + 1) true := by
  have hrest := CommonRest.of_append [] (printed (functionPieces n ps) ++ [c]) (not_marked_line hmark ['}'])
  rw [List.append_assoc, List.length_append] at hrest
  exact ⟨Nat.zero_le _, hrest⟩

/-- The lexemes of the head are read off up to the blank. -/
theorem readsOff_function {whole rest : List Char} {k : Nat} (hc : c = ' ' ∨ c = '\n')
    (h : whole.drop k = printed (functionPieces n ps) ++ c :: rest) :
    ReadsOff (functionLexemes n ps) (standing whole true k)
      (standing whole true (k + (printed (functionPieces n ps)).length)) := by
  rw [← lexemes_functionPieces]
  have hlast : (functionPieces n ps).getLast? = some Punctuator.openBrace.piece := by
    simp [functionPieces, List.getLast?_cons]
  exact readsOff_printed (sound_functionPieces n ps) (by rw [hlast]; simp [Punctuator.piece]) hc h

/-- A script is accepted as the body of a function. -/
theorem accepted_functionText (hc : c = ' ' ∨ c = '\n') (hmark : ¬ Marked text) (hps : ps ≠ [] → levels ≠ 0)
    (hle : limit ≤ levels) (h : Accepted limit text) : Accepted (levels + 1) (functionText n ps c text) := by
  have hreads := readsOff_function hc (show (functionText n ps c text).drop 0 = _ from rfl)
  obtain ⟨token, scanner, hstart⟩ := hreads.exists_next
  have hbefore : (State.begun (functionText n ps c text) token scanner).Before (functionLexemes n ps) _ :=
    .of_next hreads (by decide) hstart
  obtain ⟨first, after, hfirst, hbody⟩ := script_as_body (resumes_functionText hmark) hle h
  have hblank : (functionText n ps c text)[0 + (printed (functionPieces n ps)).length]? = some c := by
    rw [Nat.zero_add, functionText, List.getElem?_append_right (Nat.le_refl _), Nat.sub_self]
    rfl
  have hbehind :=
    (next_blank hblank hc (show LexicalGoal.regExp ≠ .templateTail by decide)).trans (by rw [Nat.zero_add, hfirst])
  have hname : ({} : Context).forbids true n.name = false := (Context.ofScript_free false).forbids_sloppy true n.name
  have hbindable : Bindable (.ofFunction false false false false) levels ps :=
    ⟨fun v _ => (Context.ofFunction_free false).forbids_sloppy true v.name, hps⟩
  refine accepted_of_code hstart (code_function_ends stalled_stalled (fun h => absurd h (Nat.succ_ne_zero levels))
    (.inl hname) (.inl hbindable) (.inr ⟨_, _, hbehind⟩) hbefore (fun s hs hread => ?_) _)
  have hboth := hbehind.symm.trans hread
  refine (hbody hs (Except.ok.inj (congrArg Prod.fst hboth)).symm (congrArg Prod.snd hboth).symm).imp fun _ t ht => ?_
  exact ht.expect_ends

end

/-- What is accepted as a script is accepted as the body of a function. -/
theorem accepted_in_function {limit : Nat} {text : List Char} (hmark : ¬ "#!".toList <+: text)
    (h : Accepted limit text) : Accepted (limit + 1) ("function f() \x7b\n".toList ++ text ++ "\n\x7d".toList) := by
  have hhead : "function f() \x7b\n".toList = printed (functionPieces nameF []) ++ ['\n'] := by decide +kernel
  rw [hhead, List.append_assoc, List.append_assoc]
  exact accepted_functionText (n := nameF) (.inr rfl) hmark (absurd rfl) (Nat.le_refl limit) h

/-- The statement that the end of the script closes is closed by the brace. -/
theorem accepted_in_function_call :
    Accepted 8 "f()".toList ∧ Accepted 9 ("function f() \x7b\n".toList ++ "f()".toList ++ "\n\x7d".toList) := by
  have hcall : Accepted 8 "f()".toList := by
    unfold Accepted
    decide +kernel
  exact ⟨hcall, accepted_in_function (by decide) hcall⟩

end EcmaCheck
