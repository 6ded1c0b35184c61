import EcmaCheck.Proofs.Division

/-!
# Productions restore their surroundings

What a production finds set up around it (`Surroundings`) it leaves as it was, if it succeeds and no label is attached
to it. This is a trait of all productions but statements (`restoring`). A statement after labels leaves no label
attached, and no other mark than on the labels attached to it (`Unwinds`): the marks go with these labels, which whoever
attached them removes (`labelledStatement_unwinds`).

The body of a function may make its context strict, or permit `yield` and `await`; so less is asked of it, and the
function puts the context back.
-/

namespace EcmaCheck.Grammar

set_option synthInstance.maxSize 20000

/-- What the productions around a place have set up. -/
@[ext] structure Surroundings where
  context : Context
  labels : List Label
  attachedLabels : Nat
  classDepth : Nat
  depth : Nat
  deriving DecidableEq, Repr

/-- The surroundings of the current token. -/
def State.surroundings (s : State) : Surroundings :=
  ⟨s.context, s.labels, s.attachedLabels, s.classDepth, s.depth⟩

variable {α β σ : Type} {s t : State} {a : α}

/-! ## What recognizers leave as it was -/

/-- With no label attached, success leaves none attached and what `view` sees of the surroundings as it was. -/
def Keeps (view : Surroundings → σ) (x : Recognizer α) : Prop :=
  ∀ s t a, x s = .ok a t → s.attachedLabels = 0 →
    t.attachedLabels = 0 ∧ view t.surroundings = view s.surroundings

/-- A recognizer keeps what it does not touch. -/
theorem keeps_of_surroundings {view : Surroundings → σ} {x : Recognizer α}
    (h : ∀ s t a, x s = .ok a t → t.surroundings = s.surroundings) : Keeps view x := by
  intro s t a hrun hnone
  have hkept := h s t a hrun
  exact ⟨(congrArg Surroundings.attachedLabels hkept).trans hnone, congrArg view hkept⟩

theorem keeps_bind {view : Surroundings → σ} {x : Recognizer α} {f : α → Recognizer β} (hx : Keeps view x)
    (hf : ∀ a, Keeps view (f a)) : Keeps view (x >>= f) := by
  intro s t b hrun hnone
  obtain ⟨a, u, hfirst, hnext⟩ := bind_eq_ok.mp hrun
  obtain ⟨hnone', hfirst⟩ := hx s u a hfirst hnone
  obtain ⟨hnone'', hnext⟩ := hf a u t b hnext hnone'
  exact ⟨hnone'', hnext.trans hfirst⟩

theorem surroundings_receive {r : Except Fault Token × Scanner} {u : Unit} (h : s.receive r = .ok u t) :
    t.surroundings = s.surroundings := by
  obtain ⟨f | token, scanner⟩ := r <;> cases h
  rfl

theorem surroundings_rereadDivision {body : Recognizer α} (h : (do
    if (← isAt .slash) || (← isAt .slashAssign) then rescan .regExp
    body : Recognizer α) s = .ok a t) :
    ∃ u, u.surroundings = s.surroundings ∧ body u = .ok a t := by
  by_cases hdivision : (s.token.isPunctuator .slash || s.token.isPunctuator .slashAssign) = true
  · have hrun := (congrFun (if_pos hdivision) s).symm.trans h
    obtain ⟨_, u, hrescan, hbody⟩ := bind_eq_ok.mp hrun
    exact ⟨u, surroundings_receive hrescan, hbody⟩
  · exact ⟨s, rfl, (congrFun (if_neg hdivision) s).symm.trans h⟩

theorem surroundings_rereadBrace {turn : Turn Unit Unit} (h : (do
    unless ← isAt .closeBrace do unexpected
    rescan .templateTail
    return .again () : Recognizer (Turn Unit Unit)) s = .ok turn t) : t.surroundings = s.surroundings := by
  by_cases hbrace : s.token.isPunctuator .closeBrace = true
  · have hrun := (congrFun (if_pos hbrace) s).symm.trans h
    obtain ⟨_, u, hrescan, hreturn⟩ := bind_eq_ok.mp hrun
    cases hreturn
    exact surroundings_receive hrescan
  · have hrun := (congrFun (if_neg hbrace) s).symm.trans h
    cases hrun

/-- Keeping what `view` sees is a trait. -/
def keeping (view : Surroundings → σ) : Trait where
  Holds x := Keeps view x
  holds_pure _ := keeps_of_surroundings fun _ _ _ h => by cases h; rfl
  holds_bind := keeps_bind
  holds_throw _ := keeps_of_surroundings fun _ _ _ h => by cases h
  holds_get := keeps_of_surroundings fun _ _ _ h => by cases h; rfl
  holds_advanceWith _ := keeps_of_surroundings fun s _ _ h =>
    surroundings_receive (s := { s with consumed := s.token :: s.consumed }) h
  holds_peek := keeps_of_surroundings fun _ _ _ h => by rw [peek_state h]
  holds_rereadDivision h := by
    intro s t a hrun hnone
    obtain ⟨u, hkept, hbody⟩ := surroundings_rereadDivision hrun
    rw [← hkept]
    exact h u t a hbody ((congrArg Surroundings.attachedLabels hkept).trans hnone)
  holds_rereadBrace := keeps_of_surroundings fun _ _ _ h => surroundings_rereadBrace h
  holds_omitSemicolon := keeps_of_surroundings fun _ _ _ h => by cases h; rfl
  holds_noteOperandStart := keeps_of_surroundings fun _ _ _ h => by cases h; rfl
  holds_noteOperandEnd _ := keeps_of_surroundings fun _ _ _ h => by cases h; rfl
  holds_noteTurn _ := keeps_of_surroundings fun _ _ _ h => by cases h; rfl

/-! ## Productions -/

/-- What the body of a function leaves as it was. -/
def Surroundings.levels (x : Surroundings) : Nat × Nat :=
  (x.classDepth, x.depth)

theorem keeps_inFunctionContext {body : Recognizer α} (c : Context) (h : Keeps Surroundings.levels body) :
    Keeps id (inFunctionContext c body) := by
  intro s t a hrun hnone
  obtain ⟨outer, s₁, hget, hrun⟩ := bind_eq_ok.mp hrun
  cases hget
  obtain ⟨_, s₂, hset, hrun⟩ := bind_eq_ok.mp hrun
  cases hset
  obtain ⟨r, u, hbody, hrun⟩ := bind_eq_ok.mp hrun
  cases hrun
  obtain ⟨_, hlevels⟩ := h _ u _ hbody rfl
  exact ⟨hnone, Surroundings.ext rfl rfl rfl (congrArg Prod.fst hlevels) (congrArg Prod.snd hlevels)⟩

/-- With no label attached, success leaves the surroundings as they were. -/
def restoring : Discipline where
  outer := keeping id
  inner := keeping Surroundings.levels
  inner_of_outer h := by
    intro s t a hrun hnone
    obtain ⟨hnone', hkept⟩ := h s t a hrun hnone
    exact ⟨hnone', congrArg Surroundings.levels hkept⟩
  holds_changeContext _ := by
    intro s t a hrun hnone
    cases hrun
    exact ⟨hnone, rfl⟩
  holds_inFunctionContext c h := keeps_inFunctionContext c h
  holds_classBody hbody hrest := by
    intro s t a hrun hnone
    obtain ⟨_, s₁, hmodify, hrun⟩ := bind_eq_ok.mp hrun
    cases hmodify
    obtain ⟨_, u, hinner, hrun⟩ := bind_eq_ok.mp hrun
    obtain ⟨_, s₂, hmodify, hrun⟩ := bind_eq_ok.mp hrun
    cases hmodify
    obtain ⟨hnone', hkept⟩ := hbody _ u _ hinner hnone
    obtain ⟨hnone'', hafter⟩ := hrest _ t a hrun hnone'
    refine ⟨hnone'', hafter.trans ?_⟩
    have hlevel : u.classDepth = s.classDepth + 1 := congrArg Surroundings.classDepth hkept
    exact Surroundings.ext (congrArg Surroundings.context hkept :) (congrArg Surroundings.labels hkept :)
      (congrArg Surroundings.attachedLabels hkept :) (congrArg Nat.pred hlevel) (congrArg Surroundings.depth hkept :)
  holds_strictly hbody := by
    intro s t a hrun hnone
    obtain ⟨outer, s₁, hget, hrun⟩ := bind_eq_ok.mp hrun
    cases hget
    obtain ⟨_, s₂, hset, hrun⟩ := bind_eq_ok.mp hrun
    cases hset
    obtain ⟨_, u, hinner, hrun⟩ := bind_eq_ok.mp hrun
    cases hrun
    obtain ⟨hnone', hkept⟩ := hbody _ u _ hinner hnone
    refine ⟨hnone', Surroundings.ext ?_ (congrArg Surroundings.labels hkept :)
      (congrArg Surroundings.attachedLabels hkept :) (congrArg Surroundings.classDepth hkept :)
      (congrArg Surroundings.depth hkept :)⟩
    exact congrArg (fun x : Surroundings => { x.context with strict := s.context.strict }) hkept
  holds_loopBody h := by
    intro s t a hrun hnone
    obtain ⟨outer, s₁, hcontext, hrun⟩ := bind_eq_ok.mp hrun
    cases hcontext
    obtain ⟨_, s₂, hmodify, hrun⟩ := bind_eq_ok.mp hrun
    cases hmodify
    obtain ⟨_, u, hinner, hrun⟩ := bind_eq_ok.mp hrun
    cases hrun
    obtain ⟨hnone', hkept⟩ := h _ u _ hinner hnone
    refine ⟨hnone', Surroundings.ext ?_ (congrArg Surroundings.labels hkept :)
      (congrArg Surroundings.attachedLabels hkept :) (congrArg Surroundings.classDepth hkept :)
      (congrArg Surroundings.depth hkept :)⟩
    exact congrArg (fun x : Surroundings => { x.context with
      inIteration := s.context.inIteration, inBreakable := s.context.inBreakable }) hkept
  holds_clauses hbody hrest := by
    intro s t a hrun hnone
    obtain ⟨outer, s₁, hcontext, hrun⟩ := bind_eq_ok.mp hrun
    cases hcontext
    obtain ⟨_, s₂, hmodify, hrun⟩ := bind_eq_ok.mp hrun
    cases hmodify
    obtain ⟨_, u, hinner, hrun⟩ := bind_eq_ok.mp hrun
    obtain ⟨_, s₃, hmodify, hrun⟩ := bind_eq_ok.mp hrun
    cases hmodify
    obtain ⟨hnone', hkept⟩ := hbody _ u _ hinner hnone
    obtain ⟨hnone'', hafter⟩ := hrest _ t a hrun hnone'
    refine ⟨hnone'', hafter.trans (Surroundings.ext ?_ (congrArg Surroundings.labels hkept :)
      (congrArg Surroundings.attachedLabels hkept :) (congrArg Surroundings.classDepth hkept :)
      (congrArg Surroundings.depth hkept :))⟩
    exact congrArg (fun x : Surroundings => { x.context with inBreakable := s.context.inBreakable }) hkept

/-! ## Statements after labels -/

/-- The surroundings without the innermost `n` labels. -/
def Surroundings.outside (n : Nat) (x : Surroundings) : Surroundings :=
  { x with labels := x.labels.drop n }

/-- Whatever number of labels is attached to it, the recognizer leaves none attached and all other surroundings as they
were. -/
def Unwinds (x : Recognizer α) : Prop :=
  ∀ n, Keeps (Surroundings.outside n) (do
    modify fun s => { s with attachedLabels := n }
    x)

theorem Unwinds.keeps {x : Recognizer α} (h : Unwinds x) : Keeps id x := by
  intro s t a hrun hnone
  obtain ⟨hnone', hkept⟩ := h 0 s t a (bind_eq_ok.mpr ⟨(), s, by rw [← hnone]; rfl, hrun⟩) hnone
  exact ⟨hnone', hkept⟩

/-- The marks on the attached labels stay inside. -/
theorem drop_markIteration (n : Nat) (labels : List Label) : (markIteration n labels).drop n = labels.drop n := by
  have hlength : ((labels.take n).map fun l => { l with iteration := true }).length = min n labels.length := by
    rw [List.length_map, List.length_take]
  unfold markIteration
  rcases Nat.le_total n labels.length with hle | hle
  · exact List.drop_left' (hlength.trans (Nat.min_eq_left hle))
  · rw [List.drop_append, List.drop_eq_nil_of_le hle,
      List.drop_eq_nil_of_le (by rw [hlength]; exact Nat.min_le_left _ _), List.drop_nil, List.nil_append]

instance (n : Nat) : Has (keeping (Surroundings.outside n)) (markLabels n) := by
  refine ⟨?_⟩
  intro s t a hrun hnone
  by_cases h : n ≤ s.labels.length
  · rw [markLabels_of_le h] at hrun
    cases hrun
    refine ⟨hnone, ?_⟩
    exact Surroundings.ext rfl (drop_markIteration n s.labels) rfl rfl rfl
  · cases (congrFun (if_pos (Nat.lt_of_not_le h)) s).symm.trans hrun

/-- What keeps the surroundings keeps all that can be seen of them. -/
instance (priority := low) (view : Surroundings → σ) (x : Recognizer α) [h : Has restoring.outer x] :
    Has (keeping view) x := by
  refine ⟨?_⟩
  intro s t a hrun hnone
  obtain ⟨hnone', hkept⟩ := h.holds s t a hrun hnone
  exact ⟨hnone', congrArg view hkept⟩

variable {nested : Derivation} [∀ p, Has restoring.outer (nested p)]

/-- The recognizer also removes the innermost label, which is inside the `n` innermost others. -/
def Pops (n : Nat) (x : Recognizer Unit) : Prop :=
  ∀ s t a, x s = .ok a t → s.attachedLabels = 0 →
    t.attachedLabels = 0 ∧ t.surroundings.outside n = s.surroundings.outside (n + 1)

omit [∀ p, Has restoring.outer (nested p)] in
theorem pops_bind {n : Nat} {x : Recognizer α} {f : α → Recognizer Unit}
    (hx : Has (keeping (Surroundings.outside (n + 1))) x) (hf : ∀ a, Pops n (f a)) : Pops n (x >>= f) := by
  intro s t b hrun hnone
  obtain ⟨a, u, hfirst, hnext⟩ := bind_eq_ok.mp hrun
  obtain ⟨hnone', hfirst⟩ := hx.holds s u a hfirst hnone
  obtain ⟨hnone'', hnext⟩ := hf a u t b hnext hnone'
  exact ⟨hnone'', hnext.trans hfirst⟩

omit [∀ p, Has restoring.outer (nested p)] in
theorem pops_tail (n : Nat) :
    Pops n (modify fun s => { s with attachedLabels := 0, labels := s.labels.tail }) := by
  intro s t a hrun hnone
  cases hrun
  exact ⟨rfl, Surroundings.ext rfl (List.drop_tail ..) hnone.symm rfl rfl⟩

/-- What follows a label. -/
theorem afterLabel_pops (h : Unwinds (nested .statement)) (n : Nat) : Pops n (do
    advance
    expectWith .colon .regExp
    let isFunction ← isAtKeyword .function
    if isFunction && !(← context).strict then nested .functionBodyStatement
    else
      modify fun s => { s with attachedLabels := n + 1 }
      statement nested
    modify fun s => { s with attachedLabels := 0, labels := s.labels.tail }) := by
  refine pops_bind inferInstance fun _ => pops_bind inferInstance fun _ => pops_bind inferInstance fun isFunction =>
    pops_bind inferInstance fun c => ?_
  dsimp only
  split
  · exact pops_bind inferInstance fun _ => pops_tail n
  · intro s t a hrun hnone
    obtain ⟨_, s₁, hmodify, hrun⟩ := bind_eq_ok.mp hrun
    obtain ⟨_, u, hinner, hrun⟩ := bind_eq_ok.mp hrun
    obtain ⟨hnone', hkept⟩ := h (n + 1) s u _ (bind_eq_ok.mpr ⟨_, s₁, hmodify, hinner⟩) hnone
    obtain ⟨hnone'', hpopped⟩ := pops_tail n u t a hrun hnone'
    exact ⟨hnone'', hpopped.trans hkept⟩

/-- A label goes with its statement. -/
theorem labelledStatement_unwinds (h : Unwinds (nested .statement)) (n : Nat) (i : Identifier) :
    Has (keeping (Surroundings.outside n)) (labelledStatement nested n i) := by
  refine ⟨?_⟩
  intro s t a hrun hnone
  obtain ⟨_, s₁, hcheck, hrun⟩ := bind_eq_ok.mp hrun
  obtain ⟨hnone₁, hkept₁⟩ := (Has.holds (T := restoring.outer) (x := checkReference i)) s s₁ _ hcheck hnone
  obtain ⟨outer, s₂, hget, hrun⟩ := bind_eq_ok.mp hrun
  cases hget
  dsimp only at hrun
  split at hrun
  · cases hrun
  · obtain ⟨_, s₂, hmodify, hrun⟩ := bind_eq_ok.mp hrun
    cases hmodify
    obtain ⟨hnone', hpopped⟩ := afterLabel_pops h n _ t a hrun hnone₁
    exact ⟨hnone', hpopped.trans (congrArg (Surroundings.outside n) hkept₁)⟩

theorem identifierStatement_unwinds (h : Unwinds (nested .statement)) (n : Nat) (i : Identifier) :
    Has (keeping (Surroundings.outside n)) (identifierStatement nested n i) := by
  have hlabelled := labelledStatement_unwinds h n i
  unfold identifierStatement
  dsimp only
  infer_instance

/-- A statement finds out how many labels are attached to it, and takes them off itself. -/
theorem expandStatement_unwinds (h : Unwinds (nested .statement)) : Unwinds (expandStatement nested) := by
  intro n s t a hrun hnone
  obtain ⟨_, s₁, hmodify, hrun⟩ := bind_eq_ok.mp hrun
  cases hmodify
  obtain ⟨attached, s₂, hget, hrun⟩ := bind_eq_ok.mp hrun
  cases hget
  obtain ⟨_, s₃, hmodify, hrun⟩ := bind_eq_ok.mp hrun
  cases hmodify
  have hidentifier := identifierStatement_unwinds h n
  have hkept := (@Has.holds _ (keeping (Surroundings.outside n)) _ ?_ : Keeps _ _) _ t a hrun rfl
  · exact ⟨hkept.1, hkept.2.trans (Surroundings.ext rfl rfl hnone.symm rfl rfl)⟩
  · refine .bind inferInstance fun first => ?_
    split <;> infer_instance

instance (topLevel : Bool) : Has restoring.outer (expandStatementListItem nested topLevel) := by
  unfold expandStatementListItem
  dsimp only
  infer_instance

/-! ## Derivations -/

omit [∀ p, Has restoring.outer (nested p)] in
/-- A level that is opened is closed again. -/
theorem keeps_deeper {x : Recognizer α} {n : Nat} (h : Keeps (Surroundings.outside n) x) :
    Keeps (Surroundings.outside n) (deeper x) := by
  intro s t a hrun hnone
  obtain ⟨_, s₁, hopen, hrun⟩ := bind_eq_ok.mp hrun
  cases hopen
  obtain ⟨_, u, hinner, hrun⟩ := bind_eq_ok.mp hrun
  cases hrun
  obtain ⟨hnone', hkept⟩ := h _ u a hinner hnone
  have hlevel : u.depth = s.depth + 1 := congrArg Surroundings.depth hkept
  exact ⟨hnone', Surroundings.ext (congrArg Surroundings.context hkept :) (congrArg Surroundings.labels hkept :)
    (congrArg Surroundings.attachedLabels hkept :) (congrArg Surroundings.classDepth hkept :)
    (congrArg Nat.pred hlevel)⟩

omit [∀ p, Has restoring.outer (nested p)] in
theorem unwinds_deeper {x : Recognizer α} (h : Unwinds x) : Unwinds (deeper x) := by
  intro n s t a hrun hnone
  exact keeps_deeper (h n) s t a hrun hnone

/-- What a derivation does to the surroundings, whatever it derives. -/
structure Restoring (nested : Derivation) : Prop where
  has (p : Production) : Has restoring.outer (nested p)
  statement : Unwinds (nested .statement)

theorem expand_restores (p : Production) (hp : p ≠ .statement) : Has restoring.outer (expand nested p) := by
  cases p with
  | statement => exact absurd rfl hp
  | _ =>
    unfold expand
    infer_instance

theorem expand_restoring {nested : Derivation} (h : Restoring nested) :
    Restoring fun p => deeper (expand nested p) := by
  have hnested := h.has
  have hstatement := unwinds_deeper (expandStatement_unwinds h.statement)
  refine ⟨?_, hstatement⟩
  intro p
  by_cases hp : p = .statement
  · subst hp
    exact ⟨hstatement.keeps⟩
  · exact ⟨keeps_deeper (n := 0) (expand_restores p hp).holds⟩

theorem derive_restoring (levels : Nat) : Restoring (derive levels) := by
  induction levels with
  | zero =>
    refine ⟨fun p => ⟨?_⟩, ?_⟩
    · intro s t a hrun
      cases hrun
    · intro n s t a hrun
      obtain ⟨_, s₁, hmodify, hrun⟩ := bind_eq_ok.mp hrun
      cases hrun
  | succ levels ih => exact expand_restoring ih

/-- With no label attached, success leaves the surroundings as they were. -/
theorem surroundings_of_ok {x : Recognizer α} (hx : Has restoring.outer x) (hnone : s.attachedLabels = 0)
    (hrun : x s = .ok a t) : t.surroundings = s.surroundings :=
  (hx.holds s t a hrun hnone).2

/-- Every production restores its surroundings: the context, the labels with their marks, and the levels of classes and
of nesting are after it what they were before. -/
theorem productions_restore (levels : Nat) (s t : State) (hnone : s.attachedLabels = 0) :
    (∀ topLevel a, derive levels (.statementListItem topLevel) s = .ok a t → t.surroundings = s.surroundings) ∧
    (∀ a, derive levels .statement s = .ok a t → t.surroundings = s.surroundings) ∧
    (∀ a, block (derive levels) s = .ok a t → t.surroundings = s.surroundings) ∧
    (∀ allowIn a, expressionOrPattern (derive levels) allowIn s = .ok a t → t.surroundings = s.surroundings) ∧
    (∀ allowIn a, assignmentOrPattern (derive levels) allowIn s = .ok a t → t.surroundings = s.surroundings) ∧
    (∀ isAsync declaration nameRequired a, function (derive levels) isAsync declaration nameRequired s = .ok a t →
      t.surroundings = s.surroundings) ∧
    (∀ m superCall a, method (derive levels) m superCall s = .ok a t → t.surroundings = s.surroundings) ∧
    (∀ declaration nameRequired a, classDefinition (derive levels) declaration nameRequired s = .ok a t →
      t.surroundings = s.surroundings) ∧
    (∀ start isAsync simple a, arrowBody (derive levels) start isAsync simple s = .ok a t →
      t.surroundings = s.surroundings) ∧
    (∀ tagged a, template (derive levels) tagged s = .ok a t → t.surroundings = s.surroundings) ∧
    (∀ a, arrayLiteral (derive levels) s = .ok a t → t.surroundings = s.surroundings) ∧
    (∀ a, objectLiteral (derive levels) s = .ok a t → t.surroundings = s.surroundings) ∧
    (∀ lexical a, derive levels (.bindingTarget lexical) s = .ok a t → t.surroundings = s.surroundings) := by
  have hnested := (derive_restoring levels).has
  refine ⟨?_, ?_, ?_, ?_, ?_, ?_, ?_, ?_, ?_, ?_, ?_, ?_, ?_⟩ <;> intros <;>
    exact surroundings_of_ok inferInstance hnone ‹_›

theorem run'_eq_some {x : Recognizer α} (h : x.run' s = some a) : ∃ t, x s = .ok a t := by
  unfold EStateM.run' EStateM.run at h
  cases hx : x s with
  | ok b t =>
    rw [hx] at h
    cases h
    exact ⟨t, rfl⟩
  | error f t =>
    rw [hx] at h
    cases h

/-- A block under a label, with a function in it that is strict and a loop with a label of its own. -/
theorem productions_restore_block :
    ∃ s t, s.attachedLabels = 0 ∧ s.labels = [⟨"a", true⟩] ∧ block (derive 16) s = .ok () t ∧
      t.surroundings = s.surroundings := by
  let text := "\x7b b: for (;;) \x7b (function () \x7b 'use strict' \x7d); continue b \x7d \x7d"
  let s := { finalState (start (.initial false (.ofText text.toList))) with labels := [⟨"a", true⟩] }
  have hrun : EStateM.run' (block (derive 16)) s = some () := by decide +kernel
  obtain ⟨t, ht⟩ := run'_eq_some hrun
  have hnone : s.attachedLabels = 0 := by decide +kernel
  exact ⟨s, t, hnone, rfl, ht, (productions_restore 16 s t hnone).2.2.1 () ht⟩

end EcmaCheck.Grammar
