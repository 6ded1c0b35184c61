import EcmaCheck.Proofs.Following.Function
import EcmaCheck.Proofs.Strictness
import EcmaCheck.Proofs.Wrapping

/-!
# Directives in functions

A `use strict` directive in the body of a function makes the body as strict as one before the function does, but is in
force from there on: the name of the function and its parameters are checked by the rules that are in force where they
stand (`accepted_outer_iff`, `innerText_binds_eval`). The body behind the directive goes on alike in both texts
(`StrictBody.follows`), and it closes with the last character because it is a script (`StrictBody.closing`).
-/

namespace EcmaCheck

open Lexical Scanner Grammar

namespace Grammar

set_option synthInstance.maxSize 20000

variable {nested : Derivation} {s t : State} {a d : Directives} {topLevel : Bool} {n : Nat}

/-- The first statement of what is recognized. -/
theorem exists_item_of_code [∀ p, Moves (nested p)] (hstring : s.token.isString = false)
    (hopen : (s.token.isEnd || s.token.isPunctuator .closeBrace) = false)
    (hrun : code nested topLevel n d s = .ok a t) :
    ∃ u, nested (.statementListItem topLevel) s = .ok () u ∧ u.input.Leads true t.input := by
  obtain ⟨d', s', hturns, hrun⟩ := bind_eq_ok.mp hrun
  obtain ⟨_, u, hlist, hreturn⟩ := bind_eq_ok.mp hrun
  cases hreturn
  rcases repeatTurns_done (directiveTurn_of_not hstring d) n with hdone | ⟨p, hdone⟩ <;> cases hdone.symm.trans hturns
  rw [statementList_eq] at hlist
  change repeatTurns (statementTurn nested topLevel) s.turns () s = .ok () t at hlist
  cases hm : s.turns with
  | zero => 
    rw [hm] at hlist
    cases hlist
  | succ m =>
    rw [hm, repeatTurns] at hlist
    obtain ⟨_, _, htoken, hlist⟩ := bind_eq_ok.mp hlist
    cases htoken
    obtain ⟨turn, u, hturn, hrest⟩ := bind_eq_ok.mp hlist
    have hstatement : statementTurn nested topLevel () s = (do
        nested (.statementListItem topLevel)
        return .again () : Recognizer (Turn Unit Unit)) s := by
      unfold statementTurn
      rw [token_bind, hopen, if_neg Bool.false_ne_true]
    rw [hstatement] at hturn
    obtain ⟨_, _, hitem, hreturn⟩ := bind_eq_ok.mp hturn
    cases hreturn
    have hmoves : Moves (do noteTurn s.token; repeatTurns (statementTurn nested topLevel) m () : Recognizer Unit) :=
      inferInstance
    exact ⟨u, hitem, hmoves.moved_of_ok hrest⟩

/-- The body of a function that is declared, and what its name and its parameters are permitted to be. -/
theorem exists_body_of_code {levels : Nat} {v : Variable} {ps : List Variable} {behind : Scanner}
    (hs : s.Before (functionLexemes v ps) behind) (hrun : code (derive levels) topLevel n d s = .ok a t) :
    (levels ≠ 0 ∧ s.context.forbids true v.name = false ∧ Bindable s.functionContext (levels - 1) ps) ∧
      ∃ s₁ d₁ t₁, (s.deepened.inside s.functionContext).Agrees s₁ ∧ behind.next .regExp = (.ok s₁.token, s₁.scanner) ∧
        code (derive (levels - 1)) false s₁.turns {} s₁ = .ok d₁ t₁ ∧ t₁.input.Leads true t.input := by
  obtain ⟨hstring, hopen⟩ := not_string_of_function hs
  obtain ⟨u, hitem, hleads⟩ := exists_item_of_code hstring hopen hrun
  obtain ⟨hpermitted, w, ⟨s₁, d₁, t₁, hagrees, hnext, hcode, hclose⟩, hinput⟩ := Ends.of_ok
    (functionItem_ends (E := fun _ => True) (Q := fun _ w => ∃ s₁ d₁ t₁,
      (s.deepened.inside s.functionContext).Agrees s₁ ∧ behind.next .regExp = (.ok s₁.token, s₁.scanner) ∧
        code (derive (levels - 1)) false s₁.turns {} s₁ = .ok d₁ t₁ ∧ expectWith .closeBrace .regExp t₁ = .ok () w)
      (fun _ => trivial) (fun _ _ _ => trivial) (.inr fun _ => trivial) (.inr fun _ => trivial)
        (.inl fun _ => trivial) hs
      fun s₁ hagrees hnext => (Ends.self _).imp fun d₁ t₁ hcode => (Ends.self _).imp fun _ w hclose =>
        ⟨s₁, d₁, t₁, hagrees, hnext, hcode, hclose⟩) hitem
  have hmoves : Moves (expectWith .closeBrace .regExp) := inferInstance
  exact ⟨hpermitted, s₁, d₁, t₁, hagrees, hnext, hcode, (hmoves.moved_of_ok hclose).trans (hinput ▸ hleads)⟩

end Grammar

/-! ## The two texts -/

/-- A function that is made strict by a directive in its body: `function n(ps) { "use strict"; body` and a line with the
closing brace. -/
def innerText (n : Variable) (ps : List Variable) (body : List Char) : List Char :=
  printed (functionPieces n ps) ++ ' ' :: ("\"use strict\";".toList ++ ' ' :: (body ++ ['\n', '}']))

/-- The function in a script that is made strict by a directive: `"use strict"; function n(ps) { body` and a line with
the closing brace. -/
def outerText (n : Variable) (ps : List Variable) (body : List Char) : List Char :=
  "\"use strict\";".toList ++ ' ' :: (printed (functionPieces n ps) ++ ' ' :: (body ++ ['\n', '}']))

variable {n : Variable} {ps : List Variable} {body : List Char} {limit deep : Nat}

/-- The place of the blank behind the head of the function. -/
abbrev headLength (n : Variable) (ps : List Variable) : Nat :=
  (printed (functionPieces n ps)).length

section Texts

theorem drop_innerText :
    (innerText n ps body).drop (headLength n ps) = ' ' :: ("\"use strict\";".toList ++ ' ' :: (body ++ ['\n', '}'])) :=
  List.drop_left

/-- The lexemes of the directive are read off behind the head. -/
theorem readsOff_innerText : ReadsOff [.literal useStrict, .punctuator .semicolon]
    (standing (innerText n ps body) true (headLength n ps))
    (standing (innerText n ps body) true (headLength n ps + 14)) := by
  have hspace : (innerText n ps body)[headLength n ps]? = some ' ' := by
    rw [← List.head?_drop, drop_innerText]
    rfl
  have hdrop :
      (innerText n ps body).drop (headLength n ps + 1) = "\"use strict\";".toList ++ ' ' :: (body ++ ['\n', '}']) := by
    rw [← List.drop_drop, drop_innerText]
    rfl
  exact .of_space hspace (readsOff_directive (.inl rfl) hdrop)

/-- The lexemes of the head are read off behind the directive. -/
theorem readsOff_outerText : ReadsOff (functionLexemes n ps) (standing (outerText n ps body) true 13)
    (standing (outerText n ps body) true (14 + headLength n ps)) :=
  .of_space rfl (readsOff_function (.inl rfl) rfl)

theorem append_blank_append_blank (front middle rest : List Char) :
    front ++ ' ' :: (middle ++ ' ' :: rest) = (front ++ ' ' :: (middle ++ [' '])) ++ rest := by
  simp only [List.append_assoc, List.cons_append, List.nil_append]

/-- Wherever the body stands, what comes from it on is the same. -/
theorem resumes_body (front₁ front₂ : List Char) {text₁ text₂ : List Char} {k₁ k₂ : Nat}
    (hmark : ¬ Marked (body ++ ['\n', '}']))
    (h₁ : text₁ = front₁ ++ (body ++ ['\n', '}'])) (h₂ : text₂ = front₂ ++ (body ++ ['\n', '}']))
    (hk₁ : k₁ = front₁.length) (hk₂ : k₂ = front₂.length) : Resumes text₁ text₂ k₁ k₂ false := by
  subst h₁ h₂ hk₁ hk₂
  refine ⟨List.length_append ▸ Nat.le_add_right .., ?_⟩
  rw [blockEnd, List.append_nil]
  exact .of_append front₁ front₂ hmark

end Texts

namespace Grammar

/-! ## The body -/

/-- The surroundings of strict code in a plain function that a script declares. -/
structure State.Strict (s : State) : Prop where
  isModule : s.isModule = false
  context : s.context = .ofFunction true false false false
  labels : s.labels = []
  attachedLabels : s.attachedLabels = 0
  classDepth : s.classDepth = 0

theorem State.Strict.around {s t : State} (hs : s.Strict) (ht : t.Strict) : Around s t where
  isModule := ht.isModule.trans hs.isModule.symm
  context := by
    rw [hs.context, ht.context]
    exact .refl _
  labels := ht.labels.trans hs.labels.symm
  attachedLabels := ht.attachedLabels.trans hs.attachedLabels.symm
  classDepth := ht.classDepth.trans hs.classDepth.symm

section Outer

variable {text : List Char} {token : Token} {scanner : Scanner} {u w : State}
  (hu : State.Agrees { State.begun text token scanner with context := { strict := true } } u)

include hu

/-- A function that a strict script declares is strict. -/
theorem functionContext_of_strict : u.functionContext = .ofFunction true false false false := by
  unfold State.functionContext
  rw [hu.context, hu.isModule]
  rfl

theorem strict_of_outer (hw : (u.deepened.inside u.functionContext).Agrees w) : w.Strict where
  isModule := hw.isModule.trans hu.isModule
  context := hw.context.trans (functionContext_of_strict hu)
  labels := hw.labels
  attachedLabels := hw.attachedLabels
  classDepth := hw.classDepth.trans hu.classDepth

end Outer

/-- The code of the body behind the directive that makes it strict. -/
structure StrictBody (n : Variable) (ps : List Variable) (body : List Char) (levels : Nat) (first : Token)
    (s t : State) :
    Prop where
  strict : s.Strict
  next : (standing (innerText n ps body) true (headLength n ps + 15)).next .regExp = (.ok first, s.scanner)
  token : ∃ line, s.token = { first with newlineBefore := line }
  run : ∃ k d a, code (derive levels) false k d s = .ok a t
  finishes : ∃ j, t.input.Leads true j ∧ Unended j

/-- What is accepted with the directive in the body has a name, parameters and a body. -/
theorem exists_strictBody (h : Accepted limit (innerText n ps body)) :
    (limit ≠ 0 ∧ (ps ≠ [] → limit - 1 ≠ 0)) ∧ ¬ Marked (body ++ ['\n', '}']) ∧
      ∃ first s t, StrictBody n ps body (limit - 1) first s t := by
  obtain ⟨token, scanner, d, t, hstart, hcode, hend, hunended⟩ := code_of_accepted h
  have hhead : (innerText n ps body).drop 0 =
      printed (functionPieces n ps) ++ ' ' :: ("\"use strict\";".toList ++ ' ' :: (body ++ ['\n', '}'])) := by
    rfl
  have hbefore : (State.begun (innerText n ps body) token scanner).Before (functionLexemes n ps) _ :=
    .of_next (readsOff_function (.inl rfl) hhead) (by decide) hstart
  rw [Nat.zero_add] at hbefore
  obtain ⟨⟨hlimit, _, hps⟩, s₁, d₁, t₁, hs₁, hnext₁, hcode₁, hleads⟩ := exists_body_of_code hbefore hcode
  obtain ⟨d₂, s₂, n₂, hs₂, hnext₂, hcode₂⟩ := exists_code_of_useStrict
    (.of_next readsOff_innerText (by decide) hnext₁) hcode₁
  have hblank : (innerText n ps body)[headLength n ps + 14]? = some ' ' := by
    rw [← List.head?_drop, ← List.drop_drop, drop_innerText]
    rfl
  obtain ⟨hmark, first, hfirst, htoken⟩ := exists_next_behind_blank hblank (.inl rfl) (by decide) hnext₂
  rw [← List.drop_drop, ← List.drop_drop, drop_innerText] at hmark
  have hstrict : s₂.Strict := by
    refine ⟨hs₂.isModule.trans hs₁.isModule, ?_, hs₂.labels.trans hs₁.labels,
      hs₂.attachedLabels.trans hs₁.attachedLabels, hs₂.classDepth.trans hs₁.classDepth⟩
    rw [hs₂.context, hs₁.context]
    rfl
  exact ⟨⟨hlimit, hps.levels⟩, hmark, first, s₂, t₁, hstrict, hfirst, ⟨_, htoken⟩, ⟨_, _, _, hcode₂⟩, _,
    hleads, hunended⟩

variable {levels₁ levels₂ k : Nat} {text : List Char} {first : Token} {s t : State}

/-- Wherever a text goes on as the strict body does, its code follows. -/
theorem StrictBody.follows (h : StrictBody n ps body levels₁ first s t) (hle : levels₁ ≤ levels₂)
    (hr : Resumes (innerText n ps body) text (headLength n ps + 15) k false) :
    ∃ token after, (standing text true k).next .regExp = (.ok token, after) ∧
      ∀ {u : State} {line : Bool}, Around s u → u.token = { token with newlineBefore := line } → u.scanner = after →
        Ends Stalled (fun _ v => Closing (innerText n ps body) t.input ↔ Closing text v.input)
          (code (derive levels₂) false u.turns {} u) := by
  obtain ⟨token, after, hnext, hbegin⟩ := Resuming.exists_begin hr h.next
  obtain ⟨line₁, htoken₁⟩ := h.token
  obtain ⟨k₁, d₁, a₁, hcode⟩ := h.run
  refine ⟨token, after, hnext, fun {u line} haround htoken hscanner => ?_⟩
  have hlax : Prologues d₁ {} := ⟨fun _ => rfl, fun _ => rfl⟩
  have hfollows :=
    Resuming.code_follows hr hle (.inl rfl) u.turns h.strict.isModule haround (hbegin htoken₁ rfl htoken hscanner) hlax
    hcode h.finishes
  refine (ends_of_follows hfollows).imp fun _ v hv => ?_
  obtain ⟨_, _, halongside | hended⟩ := hv
  · exact closing_iff_of_alongside hr halongside
  · exact absurd hended.closed Bool.false_ne_true

/-- Where a function that a script declares is not strict, it permits what strict code does. -/
theorem State.Strict.around_inBody {u : State} {token : Token} {scanner : Scanner} (hs : s.Strict)
    (hu : u.InBody text token scanner) : Around s u where
  isModule := hu.isModule.trans hs.isModule.symm
  context := by
    rw [hs.context, hu.context]
    exact ⟨nofun, id, id, rfl, rfl, rfl, rfl, rfl, rfl, rfl, rfl, rfl⟩
  labels := hu.labels.trans hs.labels.symm
  attachedLabels := hu.attachedLabels.trans hs.attachedLabels.symm
  classDepth := hu.classDepth.trans hs.classDepth.symm

/-- A body that is a script goes on to the last character of the text. As the body of a function that is not strict it
does, and that function's code follows both the script and the strict body. -/
theorem StrictBody.closing (h : StrictBody n ps body levels₁ first s t) (hmark : ¬ Marked (body ++ ['\n', '}']))
    (hps : ps ≠ [] → levels₁ ≠ 0) (hbody : Accepted deep body) : Closing (innerText n ps body) t.input := by
  have hbare : ¬ Marked body := fun ⟨rest, hrest⟩ => hmark ⟨rest ++ ['\n', '}'], by rw [← List.append_assoc, hrest]⟩
  have hle : levels₁ ≤ max levels₁ deep := Nat.le_max_left ..
  have hlevels (hne : ps ≠ []) (hzero : max levels₁ deep = 0) : False := hps hne (Nat.eq_zero_of_le_zero (hzero ▸ hle))
  obtain ⟨token, scanner, d, v, hstart, hcode, _⟩ := code_of_accepted
    (accepted_functionText (.inl rfl) hbare hlevels (Nat.le_max_right levels₁ deep) hbody)
  have hbefore : (State.begun (functionText n ps ' ' body) token scanner).Before (functionLexemes n ps) _ :=
    .of_next (readsOff_function (.inl rfl) rfl) (by decide) hstart
  obtain ⟨_, u, d₁, w, hu, hnext, hcode, _⟩ := exists_body_of_code hbefore hcode
  have hblank : (functionText n ps ' ' body)[0 + headLength n ps]? = some ' ' := by
    rw [Nat.zero_add, functionText, List.getElem?_append_right (Nat.le_refl _), Nat.sub_self]
    rfl
  obtain ⟨_, found, hfound, htoken⟩ := exists_next_behind_blank hblank (.inl rfl) (by decide) hnext
  rw [Nat.zero_add] at hfound
  obtain ⟨_, _, hscript, hclosing⟩ := script_as_body (resumes_functionText hbare) (Nat.le_max_right levels₁ deep) hbody
  cases hfound.symm.trans hscript
  have hr : Resumes (innerText n ps body) (functionText n ps ' ' body) (headLength n ps + 15)
      (headLength n ps + 1) false := by
    refine resumes_body (printed (functionPieces n ps) ++ ' ' :: ("\"use strict\";".toList ++ [' ']))
      (printed (functionPieces n ps) ++ [' ']) hmark ?_ ?_ ?_ ?_
    · exact append_blank_append_blank ..
    · exact List.append_cons ..
    · rw [List.length_append]
      rfl
    · rw [List.length_append]
      rfl
  obtain ⟨_, _, hstrict, hiff⟩ := h.follows hle hr
  cases hfound.symm.trans hstrict
  exact ((hiff (h.strict.around_inBody hu) htoken rfl).of_ok hcode).mpr ((hclosing hu htoken rfl).of_ok hcode)

end Grammar

/-- With the directive in its body a function is accepted as it is with the directive before it, but for its name and
its parameters: only the directive before it tells that they are bound in strict code. -/
theorem accepted_outer_iff (hbody : Accepted deep body) (h : Accepted limit (innerText n ps body)) :
    Accepted limit (outerText n ps body) ↔
      ∀ v ∈ n :: ps, v.name ∉ strictReservedWords ∧ v.name ≠ "eval" ∧ v.name ≠ "arguments" := by
  obtain ⟨⟨hlimit, hps⟩, hmark, first, s, t, hstrict⟩ := exists_strictBody h
  have hreads := readsOff_directive (.inl rfl) (show (outerText n ps body).drop 0 = _ from rfl)
  rw [Nat.zero_add] at hreads
  rw [List.forall_mem_cons]
  constructor
  · intro houter
    obtain ⟨token, scanner, d, v, hstart, hcode, _⟩ := code_of_accepted houter
    obtain ⟨d₁, u, k, hu, hnext, hcode⟩ := exists_code_of_useStrict (.of_next hreads (by decide) hstart) hcode
    obtain ⟨⟨_, hname, hbindable⟩, _⟩ := exists_body_of_code (.of_next readsOff_outerText (by decide) hnext) hcode
    rw [hu.context] at hname
    rw [functionContext_of_strict hu] at hbindable
    refine ⟨(Context.ofScript_free true).forbids_strict.mp hname, fun v hv => ?_⟩
    exact (Context.ofFunction_free true).forbids_strict.mp (hbindable.names v hv)
  · rintro ⟨hname, hnames⟩
    obtain ⟨token, scanner, hstart⟩ := hreads.exists_next
    have hhead : ReadsOff (functionLexemes n ps) (standing (outerText n ps body) true 13) _ := readsOff_outerText
    obtain ⟨found, after, hfound⟩ := hhead.exists_next
    have hr : Resumes (innerText n ps body) (outerText n ps body) (headLength n ps + 15)
        (14 + headLength n ps + 1) false := by
      refine resumes_body (printed (functionPieces n ps) ++ ' ' :: ("\"use strict\";".toList ++ [' ']))
        ("\"use strict\";".toList ++ ' ' :: (printed (functionPieces n ps) ++ [' '])) hmark ?_ ?_ ?_ ?_
      · exact append_blank_append_blank ..
      · exact append_blank_append_blank ..
      · rw [List.length_append]
        rfl
      · have hdirective : "\"use strict\";".toList.length = 13 := rfl
        have hhead : (printed (functionPieces n ps)).length = headLength n ps := rfl
        rw [List.length_append, List.length_cons, List.length_append, List.length_singleton, hdirective, hhead]
        omega
    obtain ⟨next, behind, hnext, hcode⟩ := hstrict.follows (Nat.le_refl _) hr
    have hdrop : (outerText n ps body).drop 14 = printed (functionPieces n ps) ++ ' ' :: (body ++ ['\n', '}']) := rfl
    have hblank : (outerText n ps body)[14 + headLength n ps]? = some ' ' := by
      rw [← List.head?_drop, ← List.drop_drop, hdrop, List.drop_left]
      rfl
    have hbehind :=
      (next_blank hblank (.inl rfl) (show LexicalGoal.regExp ≠ .templateTail by decide)).trans (by rw [hnext])
    refine accepted_of_code hstart (code_useStrict_ends stalled_stalled (fun h => absurd h hlimit)
      (.of_next hreads (by decide) hstart) (.inr ⟨found, after, hfound⟩) (fun d u k hu hread => ?_) _)
    refine code_function_ends stalled_stalled (fun h => absurd h hlimit) (.inl ?_) (.inl ⟨fun v hv => ?_, hps⟩)
      (.inr ⟨_, _, hbehind⟩)
      (.of_next readsOff_outerText (by decide) hread) (fun w hw hread' => ?_) k
    · rw [hu.context]
      exact (Context.ofScript_free true).forbids_strict.mpr hname
    · rw [functionContext_of_strict hu]
      exact (Context.ofFunction_free true).forbids_strict.mpr (hnames v hv)
    · have hboth := hbehind.symm.trans hread'
      refine (hcode (hstrict.strict.around (strict_of_outer hu hw)) (Except.ok.inj (congrArg Prod.fst hboth)).symm
        (congrArg Prod.snd hboth).symm).imp fun _ x hx => ?_
      exact (hx.mp (hstrict.closing hmark hps hbody)).expect_ends

theorem accepted_outer_iff_call :
    Accepted 8 "f()".toList ∧ Accepted 8 (innerText nameF [nameF] "f()".toList) ∧
      Accepted 8 (outerText nameF [nameF] "f()".toList) := by
  have hbody : Accepted 8 "f()".toList := by
    unfold Accepted
    decide +kernel
  have hinner : Accepted 8 (innerText nameF [nameF] "f()".toList) := by
    unfold Accepted
    decide +kernel
  have hname : nameF.name = "f" := rfl
  refine ⟨hbody, hinner, (accepted_outer_iff hbody hinner).mpr fun v hv => ?_⟩
  obtain rfl : v = nameF := by simpa using hv
  rw [hname]
  decide +kernel

/-- The name that strict code may not bind. -/
def nameEval : Variable :=
  .plain "eval".toList (by decide +kernel) (by decide)

/-- The directive in the body comes too late for the name of the function. -/
theorem innerText_binds_eval :
    Accepted 8 [] ∧ Accepted 8 (innerText nameEval [] []) ∧ ¬ Accepted 8 (outerText nameEval [] []) := by
  unfold Accepted
  decide +kernel

end EcmaCheck
