import EcmaCheck.Grammar.Program

/-!
# What errors of the grammar quote

The wording of most errors of the grammar is fixed (`GrammarError.isFixed`). The others quote the token at their place:
as it is described, as it is written, or by the name that it is (`GrammarError.Quotes`). What the checks of identifiers,
declarations, parameters and class members find is worded in advance.
-/

namespace EcmaCheck

/-- Whether the wording of the error does not depend on the text. The names of fields that are refused are known. -/
def GrammarError.isFixed : GrammarError → Bool
  | unexpectedToken _ | expectedIdentifier _ | undefinedLabel _ | repeatedLabel _ | continueTarget _
  | undeclaredPrivate _ => false
  | fieldName name => name = "constructor" || name = "prototype"
  | _ => true

/-- The error quotes the token. -/
inductive GrammarError.Quotes (t : Token) : GrammarError → Prop
  | unexpectedToken : Quotes t (.unexpectedToken t.describe)
  | expectedIdentifier : Quotes t (.expectedIdentifier t.describe)
  | undeclaredPrivate {name : String} (h : t.kind = .privateName name) : Quotes t (.undeclaredPrivate t.lexeme)
  | undefinedLabel {i : Grammar.Identifier} (h : Grammar.identifier? t = some i) : Quotes t (.undefinedLabel i.name)
  | repeatedLabel {i : Grammar.Identifier} (h : Grammar.identifier? t = some i) : Quotes t (.repeatedLabel i.name)
  | continueTarget {i : Grammar.Identifier} (h : Grammar.identifier? t = some i) : Quotes t (.continueTarget i.name)

namespace Grammar

variable {e : GrammarError}

theorem start_of_identifier? {t : Token} {i : Identifier} (h : identifier? t = some i) : i.position = t.start := by
  unfold identifier? at h
  split at h <;> cases h
  rfl

/-! ## Checks with fixed wording -/

theorem Context.isFixed_of_identifierError? {c : Context} {binding : Bool} {i : Identifier}
    (h : c.identifierError? binding i = some e) : e.isFixed = true := by
  unfold identifierError? at h
  repeat' split at h
  all_goals cases h <;> rfl

theorem Context.isFixed_of_bindingError? {c : Context} {lexical : Bool} {i : Identifier}
    (h : c.bindingError? lexical i = some e) : e.isFixed = true := by
  rcases Option.or_eq_some_iff.mp h with h | ⟨_, h⟩
  · exact isFixed_of_identifierError? h
  · split at h <;> cases h
    rfl

theorem isFixed_of_missingInitializer? {kind : DeclarationKind} {isPattern : Bool}
    (h : missingInitializer? kind isPattern = some e) : e.isFixed = true := by
  unfold missingInitializer? at h
  repeat' split at h
  all_goals cases h <;> rfl

theorem isFixed_of_accessorError? {accessor? : Option Accessor} {ps : Parameters}
    (h : accessorError? accessor? ps = some e) : e.isFixed = true := by
  unfold accessorError? at h
  repeat' split at h
  all_goals cases h <;> rfl

theorem isFixed_of_methodError? {isStatic hasConstructor : Bool} {m : Modifiers} {publicName? : Option String}
    (h : methodError? isStatic hasConstructor m publicName? = some e) : e.isFixed = true := by
  unfold methodError? at h
  repeat' split at h
  all_goals cases h <;> rfl

theorem isFixed_of_fieldError? {isStatic : Bool} {publicName? : Option String}
    (h : fieldError? isStatic publicName? = some e) : e.isFixed = true := by
  unfold fieldError? at h
  split at h
  · split at h
    · rename_i hname
      cases h
      simp only [Bool.or_eq_true, Bool.and_eq_true, decide_eq_true_eq] at hname
      simp only [GrammarError.isFixed, Bool.or_eq_true, decide_eq_true_eq]
      exact hname.imp_right And.right
    · cases h
  · cases h

theorem isFixed_of_loopHeadError? {kind : DeclarationKind} {strict : Bool} {ds : Declarations} {l : ForLoop}
    (h : loopHeadError? kind strict ds l = some e) : e.isFixed = true := by
  unfold loopHeadError? at h
  repeat' split at h
  all_goals cases h <;> rfl

/-- What is wrong with continuing a statement is told with the label. -/
theorem quotes_of_continueError? {t : Token} {i : Identifier} {labels : List Label} (hi : identifier? t = some i)
    (h : continueError? labels i.name = some e) : e.Quotes t := by
  unfold continueError? at h
  repeat' split at h
  all_goals cases h
  · exact .continueTarget hi
  · exact .undefinedLabel hi

end Grammar

end EcmaCheck
