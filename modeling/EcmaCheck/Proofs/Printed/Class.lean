import EcmaCheck.Proofs.Printed.Statement

/-!
# Methods and classes that are printed

Object literals and classes with one member, which is a method, a field or a static block. Each brings a context of its
own for what stands in it.
-/

namespace EcmaCheck.Grammar

variable {α : Type} {s t : State} {v : Prop} {l : Lexeme} {ls ms : List Lexeme} {nested : Derivation}

/-! ## Names of members -/

theorem endsPropertyName_of_kind {t : Token} {k : TokenKind} (h : t.kind = k) :
    endsPropertyName t = endsPropertyName ⟨k, .start, .start, "", false⟩ := by
  obtain ⟨kind, start, stop, lexeme, newlineBefore⟩ := t
  cases h
  rfl

/-- What is no word and no star is no modifier. -/
theorem modifiers_of_not (hidentifier : s.token.isIdentifier = false) (hstar : s.token.isPunctuator .star = false) :
    modifiers s = .ok ⟨false, false, none⟩ s := by
  unfold modifiers
  rw [token_bind, isWord_of_kind hidentifier, if_neg Bool.false_ne_true, isWord_of_kind hidentifier,
    isWord_of_kind hidentifier, Bool.or_false, if_neg Bool.false_ne_true, bind_of_ok (eat_of_not hstar)]
  rfl

/-- A word before the end of a name is no modifier. -/
theorem modifiers_word {w : Word} {p : Punctuator} (hs : s.Faces (.word w :: .punctuator p :: ls))
    (hend : endsPropertyName ⟨.punctuator p, .start, .start, "", false⟩ = true) :
    modifiers s = .ok ⟨false, false, none⟩ s := by
  obtain ⟨next, hpeek, hnext, _⟩ := peek_reaches (.refl hs)
  have hends : endsPropertyName next = true := (endsPropertyName_of_kind hnext).trans hend
  have hstar : s.token.isPunctuator .star = false := by
    rw [isPunctuator_of_kind hs.kind]
    refine decide_eq_false ?_
    change Lexical.nameKind w.value ≠ _
    unfold Lexical.nameKind
    split <;> nofun
  have hreturn : ((do return ⟨false, ← eat .star, none⟩ : Recognizer Modifiers) s) = .ok ⟨false, false, none⟩ s :=
    bind_of_ok (eat_of_not hstar)
  unfold modifiers
  rw [token_bind]
  split
  · rw [bind_of_ok hpeek, hends, Bool.not_true, Bool.and_false, if_neg Bool.false_ne_true]
    exact hreturn
  · split
    · rw [bind_of_ok hpeek, hends, if_pos rfl]
      exact hreturn
    · exact hreturn

/-- A variable as the name of a property. -/
theorem propertyName_variable {w : Variable} {allowPrivate : Bool} (hs : s.Faces (.word w.toWord :: ls)) :
    Decided s True ls
      (· = { identifier? := some ⟨w.name, w.value.escaped, s.token.start⟩, name? := some w.name })
      (propertyName nested allowPrivate s) := by
  unfold propertyName
  rw [token_bind, hs.kind.trans w.kind_eq]
  exact .advanceWith (.refl hs) (by decide) fun u hu => ⟨trivial, hu, rfl⟩

/-! ## Methods -/

theorem method_decided {superCall : Bool}
    (hs : s.Faces (.punctuator .openParen :: .punctuator .closeParen :: .punctuator .openBrace ::
      (ms ++ .punctuator .closeBrace :: ls)))
    (hstring : ∀ t : State, t.Faces (ms ++ .punctuator .closeBrace :: ls) → t.token.isString = false)
    (hbody : BodyDecided s (.ofMethod s.context.strict s.isModule false false superCall) v ms
      (.punctuator .closeBrace :: ls) (statementList nested false)) :
    Decided s v ls (fun _ => True) (method nested ⟨false, false, none⟩ superCall s) := by
  unfold method
  rw [get_bind]
  exact plainFunction_decided (by decide) ⟨rfl, rfl⟩ hs hstring hbody

/-- A method of an object literal. -/
theorem objectMember_method {w : Variable}
    (hs : s.Faces (.word w.toWord :: .punctuator .openParen :: .punctuator .closeParen :: .punctuator .openBrace ::
      (ms ++ .punctuator .closeBrace :: ls)))
    (hstring : ∀ t : State, t.Faces (ms ++ .punctuator .closeBrace :: ls) → t.token.isString = false)
    (hbody : BodyDecided s (.ofMethod s.context.strict s.isModule false false false) v ms
      (.punctuator .closeBrace :: ls) (statementList nested false)) :
    Decided s v ls (Summary.Is .other false) (expandObjectMember nested s) := by
  unfold expandObjectMember
  rw [token_bind, bind_of_ok (modifiers_word hs rfl)]
  refine Decided.call (.refl s) (propertyName_variable hs) fun key t ht _ => ?_
  have hat : t.token.isPunctuator .openParen = true := isPunctuator_of_kind ht.kind .openParen
  rw [isAt_bind, hat, Bool.or_true, if_pos rfl]
  refine Decided.andThen ht.toAgrees (method_decided ht.faces hstring ?_) fun _ u _ hu _ => ⟨trivial, hu, rfl, rfl⟩
  rw [ht.context, ht.isModule]
  intro u hcontext hlabels hattached hmodule hu
  exact hbody u hcontext hlabels hattached (hmodule.trans ht.isModule) hu

/-- An object literal with one member, which is a method. -/
theorem objectLiteral_method {first : Lexeme}
    (hs : s.Faces (.punctuator .openBrace :: first :: ms))
    (hclose : first.kind ≠ .punctuator .closeBrace) (hrest : first.kind ≠ .punctuator .ellipsis)
    (hmember : ∀ t, s.Reaches t (first :: ms) → Decided t v (.punctuator .closeBrace :: ls) (Summary.Is .other false)
      (nested .objectMember t)) :
    Decided s v ls (Summary.Is .other false) (objectLiteral nested s) := by
  unfold objectLiteral
  rw [token_bind]
  refine .advance (.refl hs) fun t ht => ?_
  rw [itemsUntil_eq]
  refine Decided.andThen (R := fun es => es.assignable = false ∧ es.shorthand? = none) ht.toAgrees
    (.loop (items_last ht.faces hclose ?_)) fun es u _ (hu : s.Reaches u (.punctuator .closeBrace :: ls)) hes => ?_
  · rw [bind_of_ok (eat_of_not ((isPunctuator_of_kind ht.kind .ellipsis).trans (decide_eq_false hrest))),
      if_neg Bool.false_ne_true]
    refine Decided.andThen (.refl t) (hmember t ht) fun e u _ hu he => ⟨trivial, hu, ?_⟩
    rw [he.shape_eq]
    have hnone : e.shorthand? = none := he.none_iff.mpr rfl
    unfold Elements.push
    rw [hnone]
    exact ⟨rfl, rfl⟩
  · refine .advance hu fun w hw => ⟨trivial, hw, ?_, ?_⟩
    · unfold Elements.summary
      rw [hes.1, if_neg Bool.false_ne_true]
    · unfold Elements.summary
      rw [hes.2]
      rfl

/-! ## Elements of classes -/

/-- A method of a class, which may be its constructor. -/
theorem classElement_method {w : Variable} {derived : Bool}
    (hs : s.Faces (.word w.toWord :: .punctuator .openParen :: .punctuator .closeParen :: .punctuator .openBrace ::
      (ms ++ .punctuator .closeBrace :: ls)))
    (hstring : ∀ t : State, t.Faces (ms ++ .punctuator .closeBrace :: ls) → t.token.isString = false)
    (hbody : BodyDecided s
      (.ofMethod s.context.strict s.isModule false false (decide (w.name = "constructor") && derived)) v ms
      (.punctuator .closeBrace :: ls) (statementList nested false)) (hstatic : w.name ≠ "static") :
    Decided s v ls (fun _ => True) (expandClassElement nested derived false s) := by
  have hword : s.token.isWord "static" = false := by
    unfold Token.isWord
    rw [hs.kind.trans w.kind_eq]
    simpa using fun _ => hstatic
  unfold expandClassElement
  rw [isAtWord_bind, hword, if_neg Bool.false_ne_true]
  unfold classMember
  rw [bind_of_ok (modifiers_word hs rfl), token_bind]
  refine Decided.call (.refl s) (propertyName_variable hs) fun key t ht hkey => ?_
  have hat : t.token.isPunctuator .openParen = true := isPunctuator_of_kind ht.kind .openParen
  subst hkey
  dsimp only
  rw [Bool.false_and, if_neg Bool.false_ne_true, isAt_bind, hat, if_pos rfl]
  have herror : methodError? false false ⟨false, false, none⟩ (some w.name) = none := by
    unfold methodError?
    simp [Modifiers.isSpecial]
  rw [if_neg Bool.false_ne_true, herror, failIf_none_bind]
  refine Decided.andThen ht.toAgrees (method_decided (v := v) ht.faces hstring ?_) fun _ u _ hu _ =>
    ⟨trivial, hu, trivial⟩
  rw [ht.context, ht.isModule]
  intro u hcontext hlabels hattached hmodule hu
  refine hbody u ?_ hlabels hattached (hmodule.trans ht.isModule) hu
  rw [hcontext]
  simp

/-- A field with its value, before the brace that closes the class. -/
theorem classElement_field {w : Variable} {derived : Bool} {R : Summary → Prop}
    (hs : s.Faces (.word w.toWord :: .punctuator .assign :: ms)) (hstatic : w.name ≠ "static")
    (hname : w.name ≠ "constructor")
    (hvalue : ∀ t : State, t.context = s.context.ofField → t.isModule = s.isModule → t.Faces ms →
      Decided t v (.punctuator .closeBrace :: ls) R (nested (.assignment true) t))
    (hpending : ∀ e, R e → e.shorthand? = none) :
    Decided s v (.punctuator .closeBrace :: ls) (fun _ => True) (expandClassElement nested derived false s) := by
  have hword : s.token.isWord "static" = false := by
    unfold Token.isWord
    rw [hs.kind.trans w.kind_eq]
    simpa using fun _ => hstatic
  unfold expandClassElement
  rw [isAtWord_bind, hword, if_neg Bool.false_ne_true]
  unfold classMember
  rw [bind_of_ok (modifiers_word hs rfl), token_bind]
  refine Decided.call (.refl s) (propertyName_variable hs) fun key t ht hkey => ?_
  have hat : t.token.isPunctuator .openParen = false := isPunctuator_of_kind ht.kind .openParen
  subst hkey
  dsimp only
  rw [Bool.false_and, if_neg Bool.false_ne_true, isAt_bind, hat, if_neg Bool.false_ne_true]
  have herror : fieldError? false (some w.name) = none := by
    unfold fieldError?
    simp [hname]
  rw [if_neg Bool.false_ne_true, herror, if_neg (by exact Bool.false_ne_true), failIf_none_bind]
  refine .eat ht fun t ht => ?_
  have hcontext : (t.inside t.context.ofField).context = s.context.ofField := congrArg Context.ofField ht.context
  have hassignment := assignment_decided (hvalue _ hcontext ht.isModule (faces_inside ht.faces _)) (w := True)
    fun e he => iff_of_true (hpending e he) trivial
  rw [if_pos rfl, context_bind]
  refine (Decided.bind ht.toAgrees (inFunctionContext_decided (.discard (.refl _) hassignment))
    fun _ u _ (hu : s.Reaches u (.punctuator .closeBrace :: ls)) _ => ?_).iff
    ((iff_of_eq (and_true _)).trans (iff_of_eq (and_true v)))
  exact Decided.andThen hu.toAgrees (omitSemicolon_decided hu.faces) fun _ w _ hw _ => ⟨trivial, hw, trivial⟩

/-- A static block. -/
theorem classElement_staticBlock {derived : Bool} {w : Variable} (hname : w.name = "static")
    (hescaped : w.value.escaped = false)
    (hs : s.Faces (.word w.toWord :: .punctuator .openBrace :: (ms ++ .punctuator .closeBrace :: ls)))
    (hbody : BodyDecided s .ofStaticBlock v ms (.punctuator .closeBrace :: ls) (statementList nested false)) :
    Decided s v ls (fun _ => True) (expandClassElement nested derived false s) := by
  have hword : s.token.isWord "static" = true := by
    unfold Token.isWord
    rw [hs.kind.trans w.kind_eq, hname, hescaped]
    rfl
  obtain ⟨next, hpeek, hnext, _⟩ := peek_reaches (.refl hs)
  have hbrace : next.isPunctuator .openBrace = true := isPunctuator_of_kind hnext .openBrace
  unfold expandClassElement
  rw [isAtWord_bind, hword, if_pos rfl, bind_of_ok hpeek, hbrace, if_pos rfl]
  refine .advance (.refl hs) fun t ht => ?_
  unfold staticBlock
  refine Decided.andThen ht.toAgrees (inFunctionContext_decided (R := fun _ => True) ?_)
    fun _ u _ (hu : s.Reaches u ls) _ => ⟨trivial, hu, trivial⟩
  refine .expect (.refl (faces_inside ht.faces _)) fun u hu => ?_
  refine Decided.andThen hu.toAgrees
    (hbody u hu.context hu.labels hu.attachedLabels (hu.isModule.trans ht.isModule) hu.faces) fun _ x _ hx _ => ?_
  exact .lastExpectWith hx (by decide)

/-! ## Classes -/

/-- The braces of a class with one element. -/
theorem classBody_single {derived : Bool} {first : Lexeme} (hs : s.Faces (first :: ms))
    (hclose : first.kind ≠ .punctuator .closeBrace) (hsemicolon : first.kind ≠ .punctuator .semicolon)
    (hend : first.kind ≠ .endOfInput)
    (helement : Decided s v (.punctuator .closeBrace :: ls) (fun _ => True) (nested (.classElement derived false) s)) :
    Decided s v (.punctuator .closeBrace :: ls) (fun _ => True) (classBody nested derived s) := by
  have hnot (p : Punctuator) (hp : first.kind ≠ .punctuator p) : s.token.isPunctuator p = false :=
    (isPunctuator_of_kind hs.kind p).trans (decide_eq_false hp)
  have hnotEnd : s.token.isEnd = false := by
    unfold Token.isEnd
    split
    · exact absurd (hs.kind.symm.trans ‹_›) hend
    · rfl
  refine .loop fun n => Decided.iff (.again (k := .punctuator .closeBrace :: ls) (R := fun _ => True) (.refl s) ?_
    (fun b u n _ hu _ => ?_) n) (iff_of_eq (and_true v))
  · rw [token_bind, hnot _ hclose, if_neg Bool.false_ne_true, hnotEnd, if_neg Bool.false_ne_true]
    dsimp only
    rw [bind_of_ok (eat_of_not (hnot _ hsemicolon)), if_neg Bool.false_ne_true]
    exact Decided.andThen (.refl s) helement fun b u _ hu _ => ⟨trivial, hu, b, rfl, trivial⟩
  · refine .done (b := ()) (u := u) ?_ ⟨trivial, hu, trivial⟩ n
    have hat : u.token.isPunctuator .closeBrace = true := isPunctuator_of_kind hu.kind .closeBrace
    rw [token_bind, hat, if_pos rfl]
    rfl

theorem requireOperand_name {assignable : Bool} {e : Summary} (he : e.Is (.identifier assignable) false) :
    requireOperand e s = .ok () s := by
  unfold requireOperand rejectShorthand
  rw [he.none_iff.mpr rfl, he.shape_eq]
  rfl

theorem heritage_decided {levels : Nat} {base : Variable}
    (hs : s.Faces (.word base.toWord :: .punctuator .openBrace :: ls))
    (hbase : s.context.forbids false base.name = false) :
    Decided s True (.punctuator .openBrace :: ls) (Summary.Is (.identifier !s.context.forbidsAssigning base.name) false)
      (derive levels .heritage s) := by
  refine derive_decided (p := .heritage) fun n _ => ?_
  have hfaces : s.deepened.Faces (.word base.toWord :: .punctuator .openBrace :: ls) := hs.of_eq rfl rfl
  have hnot (k : Keyword) : s.deepened.token.isKeyword k = false :=
    isKeyword_of_kind (hfaces.kind.trans base.kind_eq) k
  exact leftHandSide_of_primary (endsOperand_reaches _ _ rfl)
    ((primary_name hfaces (by decide) (by decide)).iff (iff_of_true hbase trivial)) (hnot _) (hnot _) (hnot _)

section

variable {derived : Bool} {first : Lexeme}

/-- From the opening brace of a class to its closing one. -/
theorem classBraces_decided {close : LexicalGoal} (hgoal : close ≠ .templateTail)
    (hs : s.Faces (.punctuator .openBrace :: first :: ms))
    (hclose : first.kind ≠ .punctuator .closeBrace) (hsemicolon : first.kind ≠ .punctuator .semicolon)
    (hend : first.kind ≠ .endOfInput)
    (helement : ∀ t : State, t.context = s.context → t.isModule = s.isModule → t.Faces (first :: ms) →
      Decided t v (.punctuator .closeBrace :: ls) (fun _ => True) (nested (.classElement derived false) t)) :
    Decided s v ls (fun _ => True) ((do
      expect .openBrace
      modify fun s => { s with classDepth := s.classDepth + 1 }
      classBody nested derived
      modify fun s => { s with classDepth := s.classDepth - 1 }
      expectWith .closeBrace close : Recognizer Unit) s) := by
  refine .expect (.refl hs) fun t ht => ?_
  rw [modify_bind]
  have hfaces : State.Faces { t with classDepth := t.classDepth + 1 } (first :: ms) := ht.faces.of_eq rfl rfl
  have hbody := classBody_single hfaces hclose hsemicolon hend (helement _ ht.context ht.isModule hfaces)
  refine .iff ?_ (iff_of_eq (and_true v))
  refine Decided.restore (s := s) hbody (fun u hu => ⟨?_, hu.isModule.trans ht.isModule⟩) (fun u => ⟨rfl, rfl⟩)
    fun _ u _ hu _ => .of_agrees hu.toAgrees (.lastExpectWith (.refl hu.faces) hgoal)
  have hlevel : u.classDepth = t.classDepth + 1 := hu.classDepth
  exact Surroundings.ext (hu.context.trans ht.context) (hu.labels.trans ht.labels)
    (hu.attachedLabels.trans ht.attachedLabels) ((congrArg Nat.pred hlevel).trans ht.classDepth)
    (hu.depth.trans ht.depth)

end

/-- A class is strict code. -/
theorem classDefinition_of_tail {nested : Derivation} {declaration nameRequired : Bool}
    (h : Decided s.strictly v ls (fun _ => True) (classTail nested declaration nameRequired s.strictly)) :
    Decided s v ls (Summary.Is .other false) (classDefinition nested declaration nameRequired s) := by
  have hrun : classDefinition nested declaration nameRequired s =
      (classTail nested declaration nameRequired >>= fun _ => do
        modify fun t => { t with context := { t.context with strict := s.context.strict } }
        return .other s.token.start) s.strictly := rfl
  rw [hrun]
  refine .iff ?_ (iff_of_eq (and_true v))
  refine Decided.restore (s := s) h (fun u hu => ⟨?_, hu.isModule⟩) (fun u => ⟨rfl, rfl⟩)
    fun _ u _ hu _ => ⟨trivial, hu, rfl, rfl⟩
  have hcontext : u.context = { s.context with strict := true } := hu.context
  refine Surroundings.ext ?_ hu.labels hu.attachedLabels hu.classDepth hu.depth
  exact congrArg (fun c : Context => { c with strict := s.context.strict }) hcontext

/-- A class with one element, which may extend another class. -/
theorem classDefinition_decided {levels : Nat} (derived : Bool) (base : Variable) {first : Lexeme}
    (hs : s.Faces (.word Keyword.class.word ::
      ((if derived then [.word Keyword.extends.word, .word base.toWord] else []) ++
      .punctuator .openBrace :: first :: ms)))
    (hbase : Context.forbids { s.context with strict := true } false base.name = false)
    (hclose : first.kind ≠ .punctuator .closeBrace) (hsemicolon : first.kind ≠ .punctuator .semicolon)
    (hend : first.kind ≠ .endOfInput)
    (helement : ∀ t : State, t.context = { s.context with strict := true } → t.isModule = s.isModule →
      t.Faces (first :: ms) →
      Decided t v (.punctuator .closeBrace :: ls) (fun _ => True) (derive levels (.classElement derived false) t)) :
    Decided s v ls (Summary.Is .other false) (classDefinition (derive levels) false false s) := by
  have hfaces : s.strictly.Faces _ := hs.of_eq rfl rfl
  have htail : Decided s.strictly v ls (fun _ => True) (classTail (derive levels) false false s.strictly) := by
    unfold classTail
    refine .advance (.refl hfaces) fun t ht => ?_
    cases derived with
    | false =>
      have ht : s.strictly.Reaches t (.punctuator .openBrace :: first :: ms) := ht
      have hname : identifier? t.token = none := identifier?_of_kind (by
        unfold Token.isIdentifier
        rw [ht.kind]
        rfl)
      have hextends : t.token.isKeyword .extends = false := isKeyword_of_kind ht.kind .extends
      rw [token_bind, hname]
      dsimp only
      rw [if_neg Bool.false_ne_true, isAtKeyword_bind, hextends, if_neg Bool.false_ne_true]
      refine .of_agrees ht.toAgrees (classBraces_decided (by decide) ht.faces hclose hsemicolon hend ?_)
      exact fun u hcontext hmodule hu => helement u (hcontext.trans ht.context) (hmodule.trans ht.isModule) hu
    | true =>
      have ht : s.strictly.Reaches t
        (.word Keyword.extends.word :: .word base.toWord :: .punctuator .openBrace :: first :: ms) := ht
      have hkind : t.token.kind = .keyword .extends := ht.kind.trans (Keyword.kind_word .extends)
      have hname : identifier? t.token = none := identifier?_of_kind (by
        unfold Token.isIdentifier
        rw [hkind])
      have hextends : t.token.isKeyword .extends = true := isKeyword_of_kind hkind .extends
      rw [token_bind, hname]
      dsimp only
      rw [if_neg Bool.false_ne_true, isAtKeyword_bind, hextends, if_pos rfl]
      refine .advance ht fun t ht => ?_
      refine Decided.call ht.toAgrees (heritage_decided ht.faces (by rw [ht.context]; exact hbase)) fun e u hu he => ?_
      rw [bind_of_ok (requireOperand_name he)]
      refine .of_agrees hu.toAgrees (classBraces_decided (by decide) hu.faces hclose hsemicolon hend ?_)
      exact fun w hcontext hmodule hw => helement w (hcontext.trans hu.context) (hmodule.trans hu.isModule) hw
  exact classDefinition_of_tail htail

/-- In strict code a lexical declaration may bind what may be bound. -/
theorem bindingError?_strict {c : Context} (hstrict : c.strict = true) {escaped : Bool} {p : Position} {x : Variable} :
    c.bindingError? true ⟨x.name, escaped, p⟩ = none ↔ c.forbids true x.name = false := by
  unfold Context.bindingError?
  rw [Option.or_eq_none_iff, identifierError?_free]
  refine and_iff_left_of_imp fun h => ?_
  rw [Bool.true_and]
  split
  · have hlet : x.name = "let" := of_decide_eq_true ‹_›
    rw [hlet] at h
    exact absurd h (by simp [Context.forbids, Context.identifierError?, hstrict, strictReservedWords])
  · rfl

/-- The declaration of a class with one element. -/
theorem classDeclaration_decided {levels : Nat} {name : Variable} {first : Lexeme}
    (hs : s.Faces (.word Keyword.class.word :: .word name.toWord :: .punctuator .openBrace :: first :: ms))
    (hclose : first.kind ≠ .punctuator .closeBrace) (hsemicolon : first.kind ≠ .punctuator .semicolon)
    (hend : first.kind ≠ .endOfInput)
    (helement : ∀ t : State, t.context = { s.context with strict := true } → t.isModule = s.isModule →
      t.Faces (first :: ms) →
      Decided t v (.punctuator .closeBrace :: ls) (fun _ => True) (derive levels (.classElement false false) t)) :
    Decided s (Context.forbids { s.context with strict := true } true name.name = false ∧ v) ls (fun _ => True)
      (Functor.discard (classDefinition (derive levels) true true) s) := by
  refine .discard (.refl s) (classDefinition_of_tail ?_)
  have hfaces : s.strictly.Faces _ := hs.of_eq rfl rfl
  unfold classTail
  refine .advance (.refl hfaces) fun t ht => ?_
  rw [token_bind, identifier?_variable ht.faces]
  dsimp only
  have hcontext : t.context = { s.context with strict := true } := ht.context
  have hname : Decided t (Context.forbids { s.context with strict := true } true name.name = false)
      (.word name.toWord :: .punctuator .openBrace :: first :: ms) (fun _ => True)
      (checkBinding true ⟨name.name, name.value.escaped, t.token.start⟩ t) :=
    (failIf_decided ht.faces _ _).iff (hcontext ▸ bindingError?_strict (congrArg Context.strict hcontext))
  refine Decided.bind ht.toAgrees hname fun _ u _ hu _ => ?_
  refine .advance hu fun w hw => ?_
  have hextends : w.token.isKeyword .extends = false := isKeyword_of_kind hw.kind .extends
  rw [isAtKeyword_bind, hextends, if_neg Bool.false_ne_true]
  refine .of_agrees hw.toAgrees (classBraces_decided (by decide) hw.faces hclose hsemicolon hend ?_)
  exact fun x hcontext hmodule hx => helement x (hcontext.trans hw.context) (hmodule.trans hw.isModule) hx

end EcmaCheck.Grammar
