import EcmaCheck.Proofs.Printed.Operators

/-!
# Operations that are printed

A right operand takes the operators that precede the one before it, and the operators left over are applied in turn
(`operators_settled`). So a script that is one operation is accepted just if, in each of its groups, no operand with a
prefix operator stands before `**` and `??` is not mixed with `||` and `&&` (`checkBuffer_operation`).
-/

namespace EcmaCheck.Grammar

variable {s t : State} {op : BinaryOperator} {ks : List TokenKind}

/-! ## Operators between operands -/

/-- What decides the expansion of a production decides the production. -/
theorem derive_settled {levels : Nat} {p : Production} {v : Prop} {R : p.Result → Prop}
    (h : ∀ n, levels = n + 1 → Settled s.deepened v ks R (expand (derive n) p s.deepened)) :
    Settled s v ks R (derive levels p s) :=
  derive_concluded fun n hn => Concluded.imp (h n hn) fun _ _ _ ha =>
    ⟨⟨agrees_surfaced ha.1.toAgrees, ha.1.meets.of_eq rfl rfl⟩, ha.2⟩

/-- The operators that are taken where they must have at least the given precedence. -/
def taken (least : Nat) (terms : List (BinaryOperator × Operand)) : List (BinaryOperator × Operand) :=
  terms.takeWhile (least ≤ ·.1.precedence)

/-- The operators that are left there. -/
def remaining (least : Nat) (terms : List (BinaryOperator × Operand)) : List (BinaryOperator × Operand) :=
  terms.dropWhile (least ≤ ·.1.precedence)

/-- Whether the terms can stand behind the operators; `before` tells whether a prefix operator stands before the operand
that the first of them follows. -/
structure LegalBehind (done : List BinaryOperator) (before : Bool) (terms : List (BinaryOperator × Operand)) :
    Prop where
  operands : ∀ term ∈ terms, term.2.isLegal = true
  powers : powersLegal before terms = true
  mixes : BinaryOperator.mixes (done ++ terms.map Prod.fst) = false

/-- The operand is decided wherever it stands. -/
def OperandSettled (o : Operand) : Prop :=
  ∀ (levels : Nat) (s : State) (ks : List TokenKind), s.context.Free false →
    (ks.head?.getD .endOfInput).FollowsOperand → s.Meets (o.kinds ++ ks) →
      Settled s (o.isLegal = true) ks (Summary.Applies · o.isPrefixed []) (expandUnary (derive levels) s)

/-- The operators are decided behind others that precede them, up to the first that does not precede what they are
in. -/
def OperatorsSettled (ks : List TokenKind) (terms : List (BinaryOperator × Operand)) : Prop :=
  ∀ (levels least turns : Nat) (s t : State) (e : Summary) (done : List BinaryOperator) (before : Bool),
    s.context.Free false → s.Arrives t (applicationKinds terms ++ ks) → e.Applies before done →
      (∀ term ∈ terms.head?, (∀ op ∈ done, term.1.precedence ≤ op.precedence) ∧ (done ≠ [] → term.1 ≠ .power)) →
        BinaryOperator.mixes done = false →
          Settled s (LegalBehind done (decide (done = []) && before) (taken least terms))
            (applicationKinds (remaining least terms) ++ ks)
            (Summary.Applies · before (done ++ (taken least terms).map Prod.fst))
            (repeatTurns (binaryTurn (derive levels) least true) turns e t)

section

variable {levels least limit : Nat} {terms : List (BinaryOperator × Operand)} {o : Operand}

theorem le_of_mem_taken {term : BinaryOperator × Operand} (h : term ∈ taken least terms) :
    least ≤ term.1.precedence :=
  of_decide_eq_true (List.all_eq_true.mp List.all_takeWhile term h)

theorem lt_of_head?_remaining {term : BinaryOperator × Operand} (h : term ∈ (remaining least terms).head?) :
    term.1.precedence < least := by
  have hnot := List.head?_dropWhile_not (fun term => decide (least ≤ term.1.precedence)) terms
  have hhead : (terms.dropWhile fun term => decide (least ≤ term.1.precedence)).head? = some term := h
  rw [hhead] at hnot
  exact Nat.lt_of_not_le (of_decide_eq_false hnot)

theorem head?_of_taken {term : BinaryOperator × Operand} (h : term ∈ (taken least terms).head?) :
    term ∈ terms.head? := by
  unfold taken at h
  rw [List.head?_takeWhile] at h
  exact (Option.filter_eq_some_iff.mp h).1

theorem taken_one (terms : List (BinaryOperator × Operand)) : taken 1 terms = terms := by
  induction terms with
  | nil => rfl
  | cons term terms ih =>
    unfold taken at ih ⊢
    rw [List.takeWhile_cons_of_pos (by exact decide_eq_true term.1.precedence_pos), ih]

theorem remaining_one (terms : List (BinaryOperator × Operand)) : remaining 1 terms = [] := by
  have hsplit : taken 1 terms ++ remaining 1 terms = terms := List.takeWhile_append_dropWhile
  rw [taken_one] at hsplit
  exact List.append_cancel_left (hsplit.trans (List.append_nil terms).symm)

/-- What takes more operators goes on behind those that another takes. -/
theorem taken_of_le (h : least ≤ limit) :
    taken least terms = taken limit terms ++ taken least (remaining limit terms) := by
  have hsplit : terms = taken limit terms ++ remaining limit terms := List.takeWhile_append_dropWhile.symm
  refine (congrArg (taken least) hsplit).trans (List.takeWhile_append_of_pos fun term hterm => ?_)
  exact decide_eq_true (Nat.le_trans h (le_of_mem_taken hterm))

theorem remaining_of_le (h : least ≤ limit) : remaining least terms = remaining least (remaining limit terms) := by
  have hsplit : terms = taken limit terms ++ remaining limit terms := List.takeWhile_append_dropWhile.symm
  refine (congrArg (remaining least) hsplit).trans (List.dropWhile_append_of_pos fun term hterm => ?_)
  exact decide_eq_true (Nat.le_trans h (le_of_mem_taken hterm))

/-- What is behind an operand. -/
theorem follows_applicationKinds (hks : (ks.head?.getD .endOfInput).endsGroup = true)
    (terms : List (BinaryOperator × Operand)) :
    ((applicationKinds terms ++ ks).head?.getD .endOfInput).FollowsOperand := by
  cases terms with
  | nil => exact .inl hks
  | cons term terms => exact .inr ⟨term.1, rfl⟩

/-- What decides the operands and the operators between them decides the operation. -/
theorem binary_settled (hks : (ks.head?.getD .endOfInput).endsGroup = true) (ho : OperandSettled o)
    (hterms : OperatorsSettled ks terms) (hfree : s.context.Free false)
    (hs : s.Meets (o.kinds ++ (applicationKinds terms ++ ks))) :
    Settled s (o.isLegal = true ∧ LegalBehind [] o.isPrefixed (taken least terms))
      (applicationKinds (remaining least terms) ++ ks)
      (Summary.Applies · o.isPrefixed ((taken least terms).map Prod.fst)) (binary (derive levels) least true s) := by
  unfold binary
  refine notingOperandEnd_concluded (fun e t ht => ⟨ht.1.ended, ht.2⟩) ?_
  refine Settled.bind (.refl s) (ho levels s _ hfree (follows_applicationKinds hks terms) hs) fun e t _ ht he => ?_
  exact Concluded.loop fun n => hterms levels least n s t e [] o.isPrefixed hfree ht he
    (fun term _ => ⟨fun op hop => absurd hop List.not_mem_nil, fun h => absurd rfl h⟩) rfl

theorem taken_cons (h : least ≤ op.precedence) : taken least ((op, o) :: terms) =
    (op, o) :: (taken op.rightPrecedence terms ++ taken least (remaining op.rightPrecedence terms)) := by
  have hright : least ≤ op.rightPrecedence := Nat.le_trans h op.precedence_le_right
  rw [← taken_of_le hright]
  exact List.takeWhile_cons_of_pos (decide_eq_true h)

theorem remaining_cons (h : least ≤ op.precedence) :
    remaining least ((op, o) :: terms) = remaining least (remaining op.rightPrecedence terms) := by
  have hright : least ≤ op.rightPrecedence := Nat.le_trans h op.precedence_le_right
  rw [← remaining_of_le hright]
  exact List.dropWhile_cons_of_pos (decide_eq_true h)

/-- Behind a right operand stands no operator that it would have taken, and no `**`. -/
theorem head?_remaining {term : BinaryOperator × Operand}
    (h : term ∈ (remaining op.rightPrecedence terms).head?) : term.1.precedence ≤ op.precedence ∧ term.1 ≠ .power := by
  have hlt := lt_of_head?_remaining h
  unfold BinaryOperator.rightPrecedence at hlt
  split at hlt
  · next hop =>
    subst hop
    exact ⟨Nat.le_of_lt hlt, fun h => absurd (h ▸ hlt) (Nat.lt_irrefl _)⟩
  · next hop =>
    refine ⟨Nat.le_of_lt_succ hlt, fun h => ?_⟩
    rw [h] at hlt
    exact hop (BinaryOperator.eq_power_of_precedence (Nat.le_of_lt_succ hlt))

/-- Behind a right operand stands no operator that precedes one taken before. -/
theorem head?_remaining_le {done : List BinaryOperator} (hprecede : ∀ p ∈ done, op.precedence ≤ p.precedence)
    {term : BinaryOperator × Operand} (h : term ∈ (remaining op.rightPrecedence terms).head?) :
    ∀ p ∈ done ++ op :: (taken op.rightPrecedence terms).map Prod.fst, term.1.precedence ≤ p.precedence := by
  have hle := (head?_remaining h).1
  refine List.forall_mem_append.mpr ⟨fun p hp => Nat.le_trans hle (hprecede p hp), List.forall_mem_cons.mpr ⟨hle, ?_⟩⟩
  intro p hp
  obtain ⟨front, hfront, rfl⟩ := List.mem_map.mp hp
  exact Nat.le_trans hle (Nat.le_trans op.precedence_le_right (le_of_mem_taken hfront))

/-- An operator, what its right operand takes and what is behind that can stand where they do if each of them can. -/
theorem legalBehind_cons {done : List BinaryOperator} {before : Bool} (hleast : least ≤ op.precedence) :
    ((¬ (op = .power ∧ before = true ∧ done = []) ∧
        (o.isLegal = true ∧ LegalBehind [] o.isPrefixed (taken op.rightPrecedence terms)) ∧
          BinaryOperator.mixes (done ++ op :: (taken op.rightPrecedence terms).map Prod.fst) = false) ∧
      LegalBehind (done ++ op :: (taken op.rightPrecedence terms).map Prod.fst) false
        (taken least (remaining op.rightPrecedence terms))) ↔
    LegalBehind done (decide (done = []) && before) (taken least ((op, o) :: terms)) := by
  have hpowers (b : Bool) : powersLegal b (taken op.rightPrecedence terms ++ taken least (remaining op.rightPrecedence
      terms)) = (powersLegal b (taken op.rightPrecedence terms) &&
        powersLegal false (taken least (remaining op.rightPrecedence terms))) :=
    powersLegal_append (fun term h => (head?_remaining (head?_of_taken h)).2) b
  rw [taken_cons hleast]
  generalize taken op.rightPrecedence terms = front at *
  generalize taken least (remaining op.rightPrecedence terms) = back at *
  have hops : (done ++ op :: front.map Prod.fst) ++ back.map Prod.fst =
      done ++ ((op, o) :: (front ++ back)).map Prod.fst := by simp
  constructor
  · rintro ⟨⟨hpower, ⟨ho, hfront⟩, -⟩, hback⟩
    refine ⟨List.forall_mem_cons.mpr ⟨ho, List.forall_mem_append.mpr ⟨hfront.operands, hback.operands⟩⟩, ?_, ?_⟩
    · rw [powersLegal, hpowers, hfront.powers, hback.powers]
      have : ¬ ((decide (done = []) && before) = true ∧ op = .power) := fun h => by
        rw [Bool.and_eq_true, decide_eq_true_iff] at h
        exact hpower ⟨h.2, h.1.2, h.1.1⟩
      simp only [Bool.and_true, Bool.not_eq_true', Bool.and_eq_false_iff, decide_eq_false_iff_not]
      grind
    · exact hops ▸ hback.mixes
  · intro h
    obtain ⟨ho, hoperands⟩ := List.forall_mem_cons.mp h.operands
    obtain ⟨hfront, hback⟩ := List.forall_mem_append.mp hoperands
    have hpower := h.powers
    rw [powersLegal, hpowers, Bool.and_eq_true, Bool.and_eq_true] at hpower
    have hmixes : BinaryOperator.mixes (done ++ op :: front.map Prod.fst ++ back.map Prod.fst) = false :=
      hops ▸ h.mixes
    have hmixes' : BinaryOperator.mixes (done ++ op :: front.map Prod.fst) = false :=
      BinaryOperator.mixes_mono (fun p hp => List.mem_append_left _ hp) hmixes
    refine ⟨⟨?_, ⟨ho, hfront, hpower.2.1, ?_⟩, hmixes'⟩, hback, hpower.2.2, hmixes⟩
    · rintro ⟨rfl, rfl, rfl⟩
      cases hpower.1
    · refine BinaryOperator.mixes_mono (fun p hp => ?_) hmixes'
      exact List.mem_append_right _ (List.mem_cons_of_mem _ hp)

/-- A turn takes an operator and its right operand, which takes the operators that precede it. -/
theorem binaryTurn_settled {e : Summary} {done : List BinaryOperator} {before : Bool}
    (hks : (ks.head?.getD .endOfInput).endsGroup = true) (ho : OperandSettled o) (hterms : OperatorsSettled ks terms)
    (hfree : s.context.Free false) (ht : s.Arrives t (applicationKinds ((op, o) :: terms) ++ ks))
    (he : e.Applies before done) (hprecede : ∀ p ∈ done, op.precedence ≤ p.precedence)
    (hleast : least ≤ op.precedence) :
    Settled s (¬ (op = .power ∧ before = true ∧ done = []) ∧
        (o.isLegal = true ∧ LegalBehind [] o.isPrefixed (taken op.rightPrecedence terms)) ∧
          BinaryOperator.mixes (done ++ op :: (taken op.rightPrecedence terms).map Prod.fst) = false)
      (applicationKinds (remaining op.rightPrecedence terms) ++ ks)
      (fun r => ∃ e', r = .again e' ∧
        e'.Applies before (done ++ op :: (taken op.rightPrecedence terms).map Prod.fst))
      (binaryTurn (derive levels) least true e t) := by
  rw [applicationKinds_cons, List.cons_append, List.append_assoc] at ht
  have hkind := ht.meets.kind
  have hpower : (decide (op = .power) && decide (e.shape = .unary)) = true ↔
      op = .power ∧ before = true ∧ done = [] := by
    rw [Bool.and_eq_true, decide_eq_true_iff, decide_eq_true_iff, he.unary]
  unfold binaryTurn
  rw [token_bind, precedence?_operator hkind]
  dsimp only
  rw [isPunctuator_power hkind, if_neg (by simp [he.arrow, hleast])]
  by_cases hunary : op = .power ∧ before = true ∧ done = []
  · rw [if_pos (hpower.mpr hunary)]
    exact .refuse fun h => h.1 hunary
  · rw [if_neg fun h => hunary (hpower.mp h)]
    refine Concluded.iff ?_ (and_iff_right hunary).symm
    have hreject : rejectShorthand e t = .ok () t := by
      unfold rejectShorthand
      rw [he.shorthand]
      rfl
    rw [bind_of_ok hreject]
    refine Settled.advance ht fun u hu => ?_
    have hfree' : u.context.Free false := hu.context ▸ hfree
    have hprecedence : (if decide (op = .power) = true then op.precedence else op.precedence + 1) =
        op.rightPrecedence := by
      simp [BinaryOperator.rightPrecedence]
    have hright : Settled u (o.isLegal = true ∧ LegalBehind [] o.isPrefixed (taken op.rightPrecedence terms))
        (applicationKinds (remaining op.rightPrecedence terms) ++ ks)
        (Summary.Applies · o.isPrefixed ((taken op.rightPrecedence terms).map Prod.fst))
        (derive levels (.rightOperand op.rightPrecedence true) u) :=
      derive_settled (p := .rightOperand _ true) fun n _ =>
        binary_settled hks ho hterms hfree' (hu.meets.of_eq rfl rfl)
    rw [hprecedence]
    refine Settled.bind hu.toAgrees hright fun right w _ hw hright => ?_
    rw [bind_of_ok (hright.requireOperand w)]
    have happly := Summary.Applies.apply hkind he ⟨_, hright⟩ fun p hp => by
      obtain hp | hp := List.mem_append.mp hp
      · exact hprecede p hp
      · obtain ⟨term, hterm, rfl⟩ := List.mem_map.mp hp
        exact Nat.le_trans op.precedence_le_right (le_of_mem_taken hterm)
    cases hshape : binaryShape? t.token e.shape right.shape with
    | some shape =>
      rw [hshape] at happly
      exact ⟨happly.1, hw, _, rfl, happly.2⟩
    | none =>
      rw [hshape] at happly
      exact .refuse fun h => Bool.false_ne_true (h.symm.trans happly)

/-- Where no operator is taken, all that was taken is the expression. -/
theorem operators_done {e : Summary} {done : List BinaryOperator} {before : Bool}
    (hturn : binaryTurn (derive levels) least true e t = .ok (.done e) t) (htaken : taken least terms = [])
    (hremaining : remaining least terms = terms) (ht : s.Arrives t (applicationKinds terms ++ ks))
    (he : e.Applies before done) (hmixes : BinaryOperator.mixes done = false) (turns : Nat) :
    Settled s (LegalBehind done (decide (done = []) && before) (taken least terms))
      (applicationKinds (remaining least terms) ++ ks)
      (Summary.Applies · before (done ++ (taken least terms).map Prod.fst))
      (repeatTurns (binaryTurn (derive levels) least true) turns e t) := by
  rw [htaken, hremaining, List.map_nil, List.append_nil]
  refine .done hturn ⟨⟨List.forall_mem_nil _, rfl, ?_⟩, ht, he⟩ turns
  rwa [List.map_nil, List.append_nil]

/-- What decides the operands decides the operators between them. -/
theorem operators_settled (hks : (ks.head?.getD .endOfInput).endsGroup = true) {terms : List (BinaryOperator × Operand)}
    (hoperands : ∀ term ∈ terms, OperandSettled term.2) : OperatorsSettled ks terms := by
  intro levels least turns s t e done before hfree ht he hhead hmixes
  match terms with
  | [] =>
    refine operators_done ?_ rfl rfl ht he hmixes turns
    unfold binaryTurn
    rw [token_bind, (stops_of_kind (stops_of_endsGroup (ht.meets.kind_eq ▸ hks)).1).binary]
    rfl
  | (op, o) :: terms =>
    by_cases hleast : least ≤ op.precedence
    · obtain ⟨ho, hoperands⟩ := List.forall_mem_cons.mp hoperands
      have hterms : OperatorsSettled ks terms := operators_settled hks hoperands
      have hlength : (remaining op.rightPrecedence terms).length ≤ terms.length := (List.dropWhile_sublist _).length_le
      have hrest : OperatorsSettled ks (remaining op.rightPrecedence terms) :=
        operators_settled hks fun term hterm => hoperands term ((List.dropWhile_sublist _).subset hterm)
      have hprecede : ∀ p ∈ done, op.precedence ≤ p.precedence := (hhead (op, o) rfl).1
      have htail : ((op, o) :: (taken op.rightPrecedence terms ++
          taken least (remaining op.rightPrecedence terms))).map Prod.fst =
            op :: (taken op.rightPrecedence terms).map Prod.fst ++
              (taken least (remaining op.rightPrecedence terms)).map Prod.fst := by simp
      have hoperators : done ++ (taken least ((op, o) :: terms)).map Prod.fst =
          done ++ op :: (taken op.rightPrecedence terms).map Prod.fst ++
            (taken least (remaining op.rightPrecedence terms)).map Prod.fst := by
        rw [taken_cons hleast, htail, List.append_assoc]
      rw [hoperators, remaining_cons hleast]
      refine Concluded.iff (Concluded.again
        (R := fun e' u => s.Arrives u (applicationKinds (remaining op.rightPrecedence terms) ++ ks) ∧
          e'.Applies before (done ++ op :: (taken op.rightPrecedence terms).map Prod.fst))
        ((binaryTurn_settled hks ho hterms hfree ht he hprecede hleast).imp ?_) ?_ ?_ turns) (legalBehind_cons hleast)
      · rintro - r u ⟨hu, e', rfl, he'⟩
        exact ⟨e', rfl, hu, he'⟩
      · rintro e' u turns ⟨hu, he'⟩
        exact ⟨⟨⟨hu.surroundings, hu.isModule⟩, hu.meets.of_eq rfl rfl⟩, he'⟩
      · rintro e' u n ⟨-, -, hmixes'⟩ ⟨hu, he'⟩
        have hsome : decide (done ++ op :: (taken op.rightPrecedence terms).map Prod.fst = []) = false :=
          decide_eq_false (List.append_ne_nil_of_right_ne_nil _ (List.cons_ne_nil _ _))
        have hnext := hrest levels least n s u e' _ before hfree hu he' (fun term hterm =>
          ⟨head?_remaining_le hprecede hterm, fun _ => (head?_remaining hterm).2⟩) hmixes'
        rwa [hsome, Bool.false_and] at hnext
    · refine operators_done ?_ (List.takeWhile_cons_of_neg (by simpa using hleast))
        (List.dropWhile_cons_of_neg (by simpa using hleast)) ht he hmixes turns
      unfold binaryTurn
      rw [token_bind, precedence?_operator ht.meets.kind]
      dsimp only
      rw [if_pos (by simp [Nat.lt_of_not_le hleast])]
      rfl
termination_by terms.length

end

/-! ## Operands -/

/-- What is known of an operand by itself. -/
theorem Summary.Applies.operand {shape : Shape} {start : Position} (hshape : shape ≠ .arrow ∧ shape ≠ .unary)
    (hlogical : shape ≠ .logical) (hcoalesce : shape ≠ .coalesce) : Summary.Applies ⟨shape, start, none⟩ false [] where
  shorthand := rfl
  arrow := hshape.1
  unary := iff_of_false hshape.2 fun h => Bool.false_ne_true h.1
  logical := iff_of_false hlogical fun ⟨_, hop, _⟩ => List.not_mem_nil hop
  coalesce := iff_of_false hcoalesce List.not_mem_nil

theorem not_arrow_of_follows {token : Token} (h : token.kind.FollowsOperand) : token.isPunctuator .arrow = false := by
  refine (isPunctuator_of_kind rfl .arrow).trans (decide_eq_false fun harrow => ?_)
  rw [harrow] at h
  obtain h | ⟨op, h⟩ := h
  · cases h
  · cases op <;> cases h

/-- What decides a primary expression decides the operand that it is. -/
theorem expandUnary_of_primary {nested : Derivation} {v : Prop} {R : Summary → Prop}
    (hfollows : (ks.head?.getD .endOfInput).FollowsOperand) (hfree : s.context.Free false)
    (hbegins : s.token.kind.beginsOperand = true) (hword : ∀ k, s.token.kind ≠ .keyword k)
    (h : Settled s v ks R (primary nested s)) : Settled s v ks R (expandUnary nested s) := by
  have hQ : EndsBefore fun e t => s.Arrives t ks ∧ R e :=
    endsBefore_arrives fun token htoken => stopsOperand_of_follows (htoken ▸ hfollows)
  have hnot (k : Keyword) : s.token.isKeyword k = false :=
    (isKeyword_of_kind rfl k).trans (decide_eq_false (hword k))
  unfold Settled at h ⊢
  rw [concluded_iff_ends] at h ⊢
  have hleft := leftHandSide_ends (isLimit_stalled v) (hQ.and_valid v) h (hnot _) (hnot _) (hnot _)
  exact expandUnary_ends (hQ.and_valid v) (update_ends (hQ.and_valid v) hleft) (begins_of_kind hbegins)
    hfree.toPlain.quiet

theorem name_settled : OperandSettled .name := by
  intro levels s ks hfree hfollows hs
  have hkind : s.token.kind = .identifier nameA.name nameA.value.escaped := hs.kind.trans nameA.kind_eq
  have hword (w : String) (hw : nameA.name ≠ w) : s.token.isWord w = false := by
    unfold Token.isWord
    rw [hkind]
    exact (congrArg _ (decide_eq_false hw)).trans (Bool.and_false _)
  refine expandUnary_of_primary hfollows hfree (by rw [hkind]; rfl) (fun k => by rw [hkind]; nofun) ?_
  rw [primary_identifier hkind]
  unfold identifierExpression
  have hasync : s.noted.token.isWord "async" = false := hword "async" (by decide +kernel)
  rw [isAtWord_bind, hasync, if_neg Bool.false_ne_true]
  unfold plainIdentifier
  have hfree' : s.noted.context.Free false := hfree
  have hcheck : checkReference ⟨nameA.name, nameA.value.escaped, s.token.start⟩ s.noted = .ok () s.noted := by
    unfold checkReference
    rw [context_bind, identifierError?_free.mpr (hfree'.forbids_sloppy false nameA.name)]
    rfl
  rw [bind_of_ok hcheck]
  refine Settled.advance ⟨agrees_noted s, hs.of_eq rfl rfl⟩ fun t ht => ?_
  rw [context_bind, isAtArrow_bind, not_arrow_of_follows (ht.meets.kind_eq ▸ hfollows), Bool.false_and,
    if_neg Bool.false_ne_true]
  exact ⟨rfl, ht, .operand ⟨nofun, nofun⟩ nofun nofun⟩

theorem Operation.isLegal_iff (e : Operation) : e.isLegal = true ↔
    e.first.isLegal = true ∧ LegalBehind [] e.first.isPrefixed (taken 1 e.rest) := by
  rw [taken_one]
  unfold Operation.isLegal Operation.isRegular
  rw [Bool.and_eq_true, Bool.and_eq_true, Bool.not_eq_true', e.operandsLegal_iff]
  exact ⟨fun ⟨⟨hpowers, hmixes⟩, hfirst, hrest⟩ => ⟨hfirst, hrest, hpowers, hmixes⟩,
    fun ⟨hfirst, hrest, hpowers, hmixes⟩ => ⟨⟨hpowers, hmixes⟩, hfirst, hrest⟩⟩

/-- What decides the operands decides the expression. -/
theorem assignment_settled {levels : Nat} {e : Operation} (hks : (ks.head?.getD .endOfInput).endsGroup = true)
    (hfirst : OperandSettled e.first) (hrest : ∀ term ∈ e.rest, OperandSettled term.2) (hfree : s.context.Free false)
    (hs : s.Meets (e.lexemes.map Lexeme.kind ++ ks)) :
    Settled s (e.isLegal = true) ks (Summary.Applies · e.first.isPrefixed (e.rest.map Prod.fst))
      (derive levels (.assignment true) s) := by
  rw [e.kinds_eq, List.append_assoc] at hs
  refine derive_settled (p := .assignment true) fun n _ => ?_
  have hstop {t : State} (ht : s.deepened.Arrives t ks) :
      t.token.kind.stops = true ∧ t.token.kind ≠ .punctuator .comma ∧ t.token.kind ≠ .punctuator .assign :=
    stops_of_endsGroup (ht.meets.kind_eq ▸ hks)
  have hQ : EndsOperand fun x t => s.deepened.Arrives t ks ∧
      Summary.Applies x e.first.isPrefixed (e.rest.map Prod.fst) :=
    ⟨fun _ _ ht => (hstop ht.1).1, fun _ _ ht => ⟨ht.1.ended, ht.2⟩⟩
  have hbinary : Settled s.deepened _ _ _ (binary (derive n) 1 true s.deepened) :=
    binary_settled hks hfirst (operators_settled hks hrest) hfree (hs.of_eq rfl rfl)
  rw [← Operation.isLegal_iff, taken_one, remaining_one] at hbinary
  refine expandAssignment_of_conditional hQ ?_ hfree.toPlain.quiet.deepened fun _ _ ht => (hstop ht.1).2.2
  unfold Settled at hbinary
  rw [concluded_iff_ends] at hbinary ⊢
  exact conditional_of_binary (hQ.and_valid _) hbinary

/-! ### Parentheses -/

variable {levels : Nat} {e : Operation} {o : Operand}

/-- The list of one expression. -/
theorem parenthesizedList_settled (hfirst : OperandSettled e.first) (hrest : ∀ term ∈ e.rest, OperandSettled term.2)
    (hfree : s.context.Free false)
    (hs : s.Meets (.punctuator .openParen :: (e.lexemes.map Lexeme.kind ++ .punctuator .closeParen :: ks))) :
    Settled s (e.isLegal = true) ks (fun list => ∃ item : Summary, item.shorthand? = none ∧
      list = ({} : ParenthesizedList).push item) (parenthesizedList (derive levels) false s) := by
  unfold parenthesizedList
  refine .expect hs.arrives fun t ht => ?_
  obtain ⟨k, kinds, hkinds, hk⟩ := e.kinds_cons
  have hkind : t.token.kind = k := by
    have hmeets := ht.meets
    rw [hkinds] at hmeets
    exact hmeets.kind
  have hclose : t.token.isPunctuator .closeParen = false :=
    (isPunctuator_of_kind hkind .closeParen).trans (decide_eq_false hk.ne.1)
  have hellipsis : t.token.isPunctuator .ellipsis = false :=
    (isPunctuator_of_kind hkind .ellipsis).trans (decide_eq_false hk.ne.2)
  have hitem : Settled t (e.isLegal = true) (.punctuator .closeParen :: ks)
      (Summary.Applies · e.first.isPrefixed (e.rest.map Prod.fst)) (assignmentOrPattern (derive levels) true t) :=
    notingOperandEnd_concluded (fun _ _ hu => ⟨hu.1.ended, hu.2⟩)
      (assignment_settled rfl hfirst hrest (ht.context ▸ hfree) ht.meets)
  have hturn : Settled t (e.isLegal = true) (.punctuator .closeParen :: ks) (fun r => ∃ list, r = .done list ∧
      ∃ item : Summary, item.shorthand? = none ∧ list = ({} : ParenthesizedList).push item)
      (parenthesizedItem (derive levels) false {} t) := by
    unfold parenthesizedItem
    rw [token_bind, hellipsis, if_neg Bool.false_ne_true]
    refine Settled.andThen (.refl t) hitem fun item u _ hu happlies => ?_
    rw [isAt_bind, isPunctuator_of_kind hu.meets.kind, if_pos (by rfl)]
    exact ⟨trivial, hu, _, rfl, item, happlies.shorthand, rfl⟩
  rw [token_bind, if_neg (by rw [hclose]; exact Bool.false_ne_true)]
  refine Settled.andThen (R := fun list => ∃ item : Summary, item.shorthand? = none ∧
    list = ({} : ParenthesizedList).push item) ht.toAgrees (Concluded.loop (Settled.finish ?_))
    fun list u _ (hu : s.Arrives u (.punctuator .closeParen :: ks)) hlist => ?_
  · rw [isAt_bind, hclose, if_neg Bool.false_ne_true]
    exact hturn
  · exact .advance hu fun w hw => ⟨trivial, hw, hlist⟩

theorem inParentheses_ne (shape : Shape) : (shape.inParentheses ≠ .arrow ∧ shape.inParentheses ≠ .unary) ∧
    shape.inParentheses ≠ .logical ∧ shape.inParentheses ≠ .coalesce := by
  cases shape <;> simp [Shape.inParentheses]

theorem group_settled (hfirst : OperandSettled e.first) (hrest : ∀ term ∈ e.rest, OperandSettled term.2) :
    OperandSettled (.group e) := by
  intro levels s ks hfree hfollows hs
  have hkinds : (Operand.group e).kinds ++ ks =
      .punctuator .openParen :: (e.lexemes.map Lexeme.kind ++ .punctuator .closeParen :: ks) := by
    unfold Operand.kinds
    rw [Operand.lexemes, List.map_cons, List.map_append, List.cons_append, List.append_assoc]
    rfl
  rw [hkinds] at hs
  refine expandUnary_of_primary hfollows hfree (by rw [hs.kind]; rfl) (fun k => by rw [hs.kind]; nofun) ?_
  rw [primary_openParen hs.kind]
  refine .of_agrees (agrees_noted s) ?_
  unfold parenthesized
  rw [token_bind]
  have hlist : Settled s.noted _ ks _ (parenthesizedList (derive levels) false s.noted) :=
    parenthesizedList_settled hfirst hrest hfree (hs.of_eq rfl rfl)
  refine (Settled.andThen (.refl _) hlist fun list t _ ht hlist => ?_).iff ?_
  · obtain ⟨item, hitem, rfl⟩ := hlist
    rw [isAtArrow_bind, not_arrow_of_follows (ht.meets.kind_eq ▸ hfollows), Bool.false_and, if_neg Bool.false_ne_true]
    have hpending : (({} : ParenthesizedList).push item).shorthand? = none := hitem
    have hreject : (({} : ParenthesizedList).push item).rejectShorthand t = .ok () t := by
      unfold ParenthesizedList.rejectShorthand
      rw [hpending]
      rfl
    change Settled s.noted True ks _ (((({} : ParenthesizedList).push item).rejectShorthand >>= _) t)
    rw [bind_of_ok hreject]
    obtain ⟨hne, hlogical, hcoalesce⟩ := inParentheses_ne item.shape
    exact ⟨trivial, ht, .operand hne hlogical hcoalesce⟩
  · exact Iff.rfl

theorem prefixed_settled (op : PrefixOperator) (ho : OperandSettled o) : OperandSettled (.prefixed op o) := by
  intro levels s ks hfree hfollows hs
  have hkinds : (Operand.prefixed op o).kinds ++ ks = op.lexeme.kind :: (o.kinds ++ ks) := rfl
  rw [hkinds] at hs
  have hplain : isPlainPrefix s.token = true := by
    unfold isPlainPrefix Token.isPunctuator Token.isKeyword
    rw [hs.kind]
    cases op <;> rfl
  refine notingOperandEnd_concluded (fun e t ht => ⟨ht.1.ended, ht.2⟩) ?_
  rw [token_bind, context_bind, hplain, Bool.true_or, if_pos rfl]
  have hprefixed : Settled s (o.isLegal = true) ks (fun _ => True) (prefixed (derive levels) s) := by
    unfold Grammar.prefixed
    refine .advance hs.arrives fun t ht => ?_
    have hfree' : t.deepened.context.Free false := ht.context ▸ hfree
    have hunary : Settled t (o.isLegal = true) ks (Summary.Applies · o.isPrefixed []) (derive levels .unary t) :=
      derive_settled (p := .unary) fun n _ => ho n t.deepened ks hfree' hfollows (ht.meets.of_eq rfl rfl)
    refine Settled.andThen ht.toAgrees hunary fun e u _ hu he => ?_
    rw [bind_of_ok (he.requireOperand u)]
    exact ⟨trivial, hu, trivial⟩
  have hdiscard : Settled s (o.isLegal = true) ks (fun _ => True)
      ((Functor.discard (prefixed (derive levels)) : Recognizer Unit) s) :=
    Settled.andThen (f := fun _ => pure ()) (.refl s) hprefixed fun _ _ _ hu _ => ⟨trivial, hu, trivial⟩
  refine Settled.andThen (.refl s) hdiscard fun _ t _ ht _ =>
    ⟨trivial, ht, rfl, nofun, iff_of_true rfl ⟨rfl, rfl⟩, ?_, ?_⟩
  · exact iff_of_false nofun fun ⟨_, hop, _⟩ => List.not_mem_nil hop
  · exact iff_of_false nofun List.not_mem_nil

mutual

theorem operand_settled : ∀ o : Operand, OperandSettled o
  | .name => name_settled
  | .group inside => group_settled (operation_settled inside).1 (operation_settled inside).2
  | .prefixed op operand => prefixed_settled op (operand_settled operand)

theorem operation_settled : ∀ e : Operation,
    OperandSettled e.first ∧ ∀ term ∈ e.rest, OperandSettled term.2
  | .one operand => ⟨operand_settled operand, List.forall_mem_nil _⟩
  | .apply operand _ rest =>
    have hrest := operation_settled rest
    ⟨operand_settled operand, List.forall_mem_cons.mpr ⟨hrest.1, hrest.2⟩⟩

end

/-! ## The statement -/

theorem begun_of_kind {t : Token} (h : t.kind.BeginsOperation) : Begun t := by
  obtain ⟨kind, start, stop, lexeme, newlineBefore⟩ := t
  cases h with
  | name => exact ⟨⟨rfl, rfl, rfl, rfl, rfl⟩, rfl, rfl, rfl, rfl⟩
  | group => exact ⟨⟨rfl, rfl, rfl, rfl, rfl⟩, rfl, rfl, rfl, rfl⟩
  | prefixed op => cases op <;> exact ⟨⟨rfl, rfl, rfl, rfl, rfl⟩, rfl, rfl, rfl, rfl⟩

theorem goalAfter_semicolon {t : Token} (h : t.kind = .punctuator .semicolon) : t.goalAfter = .regExp := by
  rw [Token.goalAfter_of_kind h]
  rfl

/-- The kinds of the tokens that end the statement. -/
def endKinds (semicolon : Bool) : List TokenKind :=
  if semicolon then [.punctuator .semicolon] else []

theorem consumeSemicolon_settled {semicolon : Bool} (hs : s.Meets (endKinds semicolon)) :
    Settled s True [] (fun _ => True) (consumeSemicolon s) := by
  unfold consumeSemicolon
  rw [token_bind]
  cases semicolon with
  | true =>
    have hkind : s.token.kind = .punctuator .semicolon := hs.kind
    obtain ⟨t, hadvance, hagrees, hmeets⟩ := advance_meets hs
    have hrun : advanceWith .regExp s = .ok () t := goalAfter_semicolon hkind ▸ hadvance
    rw [isPunctuator_of_kind hkind, if_pos (by rfl), hrun]
    exact ⟨trivial, ⟨hagrees, hmeets⟩, trivial⟩
  | false =>
    have hkind : s.token.kind = .endOfInput := hs
    have hend : s.token.isEnd = true := by
      unfold Token.isEnd
      rw [hkind]
    rw [isPunctuator_of_kind hkind, hend, Bool.or_true, if_neg (by nofun), if_pos (by rfl)]
    exact ⟨trivial, ⟨⟨rfl, rfl⟩, hs.of_eq rfl rfl⟩, trivial⟩

theorem endsGroup_endKinds (semicolon : Bool) : ((endKinds semicolon).head?.getD .endOfInput).endsGroup = true := by
  cases semicolon <;> rfl

/-- What an operation begins with, and what follows if that is a name. -/
theorem starts_operation (e : Operation) (hks : (ks.head?.getD .endOfInput).endsGroup = true) :
    ∃ k rest, e.lexemes.map Lexeme.kind ++ ks = k :: rest ∧ k.BeginsOperation ∧
      (k = .identifier "a" false → (rest.head?.getD .endOfInput).FollowsOperand) := by
  have hfollows := follows_applicationKinds hks e.rest
  rw [e.kinds_eq, List.append_assoc]
  cases e.first with
  | name => exact ⟨_, _, congrArg (· :: _) kind_nameA, .name, fun _ => hfollows⟩
  | group => exact ⟨_, _, rfl, .group, nofun⟩
  | prefixed op operand =>
    refine ⟨_, _, rfl, .prefixed op, fun h => ?_⟩
    cases op <;> cases h

theorem not_colon_of_follows {token : Token} (h : token.kind.FollowsOperand) : token.isPunctuator .colon = false := by
  refine (isPunctuator_of_kind rfl .colon).trans (decide_eq_false fun hcolon => ?_)
  rw [hcolon] at h
  obtain h | ⟨op, h⟩ := h
  · cases h
  · cases op <;> cases h

/-- A statement that begins like an operation is an expression. -/
theorem expandStatement_operation {nested : Derivation} {k : TokenKind} (hs : s.Meets (k :: ks))
    (hk : k.BeginsOperation) (hname : k = .identifier "a" false → (ks.head?.getD .endOfInput).FollowsOperand) :
    expandStatement nested s = (do
      discard (expression nested true)
      consumeSemicolon : Recognizer Unit) s.detached := by
  unfold expandStatement
  rw [get_bind, modify_bind, token_bind, hs.kind]
  cases hk with
  | name =>
    have hdetached : s.detached.Meets (.identifier "a" false :: ks) := hs.of_eq rfl rfl
    obtain ⟨next, hpeek, hnext⟩ := peek_meets hdetached
    have hbegun : Begun s.detached.token := begun_of_kind (hdetached.kind ▸ .name)
    exact identifierStatement_eq hbegun hpeek (not_colon_of_follows (hnext ▸ hname rfl))
  | group => rfl
  | prefixed op => cases op <;> rfl

/-- An operation as an expression statement. -/
theorem statement_settled {semicolon : Bool} (hfree : s.context.Free false) (hattached : s.attachedLabels = 0)
    (hs : s.Meets (e.lexemes.map Lexeme.kind ++ endKinds semicolon)) :
    Settled s (e.isLegal = true) [] (fun _ => True) (derive levels (.statementListItem true) s) := by
  have hks := endsGroup_endKinds semicolon
  obtain ⟨hfirst, hrest⟩ := operation_settled e
  obtain ⟨k, rest, hkinds, hk, hname⟩ := starts_operation e hks
  have hbegun : Begun s.token := begun_of_kind ((hkinds ▸ hs).kind ▸ hk)
  refine derive_settled (p := .statementListItem true) fun n _ => ?_
  have hitem : expand (derive n) (.statementListItem true) s.deepened = derive n .statement s.deepened :=
    expandStatementListItem_eq hbegun.statement (isAtLetDeclaration_of_not hbegun.let)
      (isAtAsyncFunction_of_not hbegun.async)
  rw [hitem]
  refine derive_settled (p := .statement) fun n _ => ?_
  have hmeets : s.deepened.deepened.Meets (k :: rest) := (hkinds ▸ hs).of_eq rfl rfl
  have hrun : expand (derive n) .statement s.deepened.deepened = (do
      discard (expression (derive n) true)
      consumeSemicolon : Recognizer Unit) s.deepened.deepened.detached := expandStatement_operation hmeets hk hname
  have hattached' : s.deepened.deepened.attachedLabels = 0 := hattached
  rw [hrun, detached_eq hattached']
  have hassignment : Settled s.deepened.deepened (e.isLegal = true) (endKinds semicolon)
      (Summary.Applies · e.first.isPrefixed (e.rest.map Prod.fst)) (derive n (.assignment true) s.deepened.deepened) :=
    assignment_settled hks hfirst hrest hfree (hs.of_eq rfl rfl)
  have hexpression : Settled s.deepened.deepened (e.isLegal = true) (endKinds semicolon) (fun _ => True)
      (expression (derive n) true s.deepened.deepened) := by
    have hpattern := expressionOrPattern_concluded (fun _ _ ht => ⟨ht.1.ended, ht.2⟩) hassignment
      fun _ t ht => (stops_of_endsGroup (ht.1.meets.kind_eq ▸ hks)).2.1
    refine ((rejecting_concluded (w := True) hpattern fun _ _ ht => iff_of_true ht.2.shorthand trivial).iff
      (iff_of_eq (and_true _))).imp ?_
    exact fun _ _ _ ht => ⟨ht.1.1, trivial⟩
  have hdiscard : Settled s.deepened.deepened (e.isLegal = true) (endKinds semicolon) (fun _ => True)
      ((Functor.discard (expression (derive n) true) : Recognizer Unit) s.deepened.deepened) :=
    Settled.andThen (f := fun _ => pure ()) (.refl _) hexpression fun _ _ _ hu _ => ⟨trivial, hu, trivial⟩
  exact Settled.andThen (.refl _) hdiscard fun _ t _ ht _ =>
    .of_agrees ht.toAgrees (consumeSemicolon_settled ht.meets)

/-- A statement is an operation just if the operation is legal. -/
theorem statementList_settled {semicolon : Bool} (hfree : s.context.Free false) (hattached : s.attachedLabels = 0)
    (hs : s.Meets (e.lexemes.map Lexeme.kind ++ endKinds semicolon)) :
    Settled s (e.isLegal = true) [] (fun _ => True) (statementList (derive levels) true s) := by
  obtain ⟨k, rest, hkinds, hk, _⟩ := starts_operation e (endsGroup_endKinds semicolon)
  have hbegun : Begun s.token := begun_of_kind ((hkinds ▸ hs).kind ▸ hk)
  have hend : (s.token.isEnd || s.token.isPunctuator .closeBrace) = false := hbegun.list
  rw [statementList_eq]
  refine .loop fun n => (Concluded.again (R := fun _ t => s.Arrives t []) ?_ ?_ (fun _ t n _ ht => ?_) n).iff
    (iff_of_eq (and_true _))
  · unfold statementTurn
    rw [token_bind, hend, if_neg Bool.false_ne_true]
    refine Concluded.andThen (statement_settled hfree hattached hs) fun _ t _ ht => ⟨trivial, (), rfl, ht.1⟩
  · exact fun _ t turns ht => ⟨⟨ht.surroundings, ht.isModule⟩, ht.meets.of_eq rfl rfl⟩
  · have hkind : t.token.kind = .endOfInput := ht.meets
    have hdone : statementTurn (derive levels) true () t = .ok (.done ()) t := by
      unfold statementTurn Token.isEnd
      rw [token_bind, hkind]
      rfl
    exact .done hdone ⟨trivial, ht, trivial⟩ n

/-- The text of lexemes that are read one after the other is met by a script. -/
theorem start_meets {ls : List Lexeme} (hls : readable .regExp ls = true) : ∃ t,
    start (.initial false (.carrying (spaced ls) true)) = .ok () t ∧ t.context.Free false ∧ t.attachedLabels = 0 ∧
      t.Meets (ls.map Lexeme.kind) := by
  have hrest : (Scanner.ofSource (.carrying (spaced ls) true)).rest =
      List.replicate 0 ' ' ++ (spaced ls ++ ['\n']) := rfl
  obtain ⟨token, after, hnext, hmeets⟩ := readable_meets rfl (by decide) hls hrest
  refine ⟨{ State.initial false (.carrying (spaced ls) true) with scanner := after, token }, ?_,
    Context.ofScript_free false, rfl, hmeets _ rfl rfl⟩
  unfold start
  rw [show (State.initial false (.carrying (spaced ls) true)).scanner.next .regExp = _ from hnext]
  rfl

/-- An operation is accepted as a statement just if, in each of its groups, no operand with a prefix operator is
directly followed by `**` and `??` does not stand together with `||` or `&&`, unless it nests too deep. -/
theorem checkBuffer_operation {limit : Nat} (e : Operation) (semicolon : Bool)
    (hdeep : ∀ r, checkBuffer ⟨.script, limit⟩ (Utf8.encode (e.statement semicolon)) ≠ .tooDeep r) :
    checkBuffer ⟨.script, limit⟩ (Utf8.encode (e.statement semicolon)) = .ok ↔ e.isLegal = true := by
  have hreadable : readable .regExp (e.statementLexemes semicolon) = true := by
    unfold Operation.statementLexemes
    rw [e.readable_lexemes]
    cases semicolon <;> rfl
  obtain ⟨s, hstart, hfree, hattached, hmeets⟩ := start_meets hreadable
  have hkinds : (e.statementLexemes semicolon).map Lexeme.kind = e.lexemes.map Lexeme.kind ++ endKinds semicolon := by
    unfold Operation.statementLexemes
    rw [List.map_append]
    cases semicolon <;> rfl
  rw [hkinds] at hmeets
  obtain ⟨k, rest, hcons, hk, _⟩ := starts_operation e (endsGroup_endKinds semicolon)
  have hbegun : Begun s.token := begun_of_kind ((hcons ▸ hmeets).kind ▸ hk)
  refine checkBuffer_started hstart hdeep ?_
  have hdirectives : Concluded True (fun _ t => t = s)
      ((Functor.discard (directives (derive limit)) : Recognizer Unit) s) :=
    Concluded.andThen (f := fun _ => pure ()) (Q := fun _ t => t = s)
      (Concluded.loop (.done (directiveTurn_of_not hbegun.string {}) ⟨trivial, rfl⟩)) fun _ _ _ ht => ⟨trivial, ht⟩
  refine (Concluded.bind hdirectives fun _ t _ ht => ?_).iff (iff_of_eq (true_and _))
  subst ht
  exact (statementList_settled hfree hattached hmeets).imp fun _ _ _ ht => ht.1.meets

/-- A group with `||` beside `??`. -/
def mixedGroups : Operation :=
  .apply (.group (.apply .name .logicalOr (.one .name))) .coalesce
    (.apply (.prefixed .minus .name) .slash (.apply .name .power (.one (.prefixed .typeof .name))))

example : mixedGroups.statement true = "( a || a ) ?? - a / a ** typeof a ;".toList := by decide +kernel

theorem checkBuffer_operation_mixedGroups :
    (∀ r, checkBuffer ⟨.script, 64⟩ (Utf8.encode (mixedGroups.statement true)) ≠ .tooDeep r) ∧
      checkBuffer ⟨.script, 64⟩ (Utf8.encode (mixedGroups.statement true)) = .ok := by
  have hdeep : ∀ r, checkBuffer ⟨.script, 64⟩ (Utf8.encode (mixedGroups.statement true)) ≠ .tooDeep r := by
    rw [show checkBuffer ⟨.script, 64⟩ (Utf8.encode (mixedGroups.statement true)) = .ok by decide +kernel]
    exact fun _ => Outcome.noConfusion
  exact ⟨hdeep, (checkBuffer_operation mixedGroups true hdeep).mpr (by decide +kernel)⟩

end EcmaCheck.Grammar
