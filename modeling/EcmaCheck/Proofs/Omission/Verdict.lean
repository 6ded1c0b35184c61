import EcmaCheck.Proofs.Acceptance
import EcmaCheck.Proofs.Omission.Alongside

/-!
# Omitted semicolons may be written

Where the recognition of an accepted text has omitted a semicolon, the text is also accepted with a semicolon there
(`checkBuffer_semicolon`). Something can be read there at the start of a statement: otherwise the recognition of a text
in which a regular expression stands behind the semicolon would follow (`Opens.code_omitting`), although the first can
read none.
-/

namespace EcmaCheck

open Lexical Scanner Grammar

/-! ## Places of omissions -/

namespace Grammar

/-- Statements end where a token does. -/
theorem omitted_of_leads {i j : Input} {ok : Bool} (h : i.Leads ok j)
    (hi : ∀ p ∈ i.omitted, p = .start ∨ ∃ u ∈ i.consumed, p = u.stop) :
    ∀ p ∈ j.omitted, p = .start ∨ ∃ u ∈ j.consumed, p = u.stop := by
  induction h with
  | done | fails => exact hi
  | misreads => exact fun p hp => (hi p hp).imp_right fun ⟨u, hu, hstop⟩ => ⟨u, List.mem_cons_of_mem _ hu, hstop⟩
  | advance _ h _ ih =>
    refine ih ?_
    rw [(Input.eq_of_receive h).2]
    exact fun p hp => (hi p hp).imp_right fun ⟨u, hu, hstop⟩ => ⟨u, List.mem_cons_of_mem _ hu, hstop⟩
  | rescan _ h _ ih =>
    refine ih ?_
    rw [(Input.eq_of_receive h).2]
    exact hi
  | @noteOmission i j ok _ ih =>
    refine ih (List.forall_mem_cons.mpr ⟨?_, hi⟩)
    unfold Input.previousEnd
    cases hconsumed : i.consumed with
    | nil => exact .inl rfl
    | cons u rest => exact .inr ⟨u, hconsumed ▸ List.mem_cons_self, rfl⟩
  | noteStart _ ih | noteEnd _ ih | noteTurn _ _ ih => exact ih hi

instance (nested : Derivation) (d : Directives) [∀ p, Moves (nested p)] [∀ p, Takes (nested p)] :
    Gentle (directiveTurn nested d) := by
  unfold directiveTurn
  refine .bind inferInstance (fun first => ?_) fun first => ?_ <;> split <;> infer_instance

instance (nested : Derivation) (topLevel : Bool) (u : Unit) [∀ p, Moves (nested p)] [∀ p, Takes (nested p)] :
    Gentle (statementTurn nested topLevel u) := by
  unfold statementTurn
  infer_instance

instance (nested : Derivation) (topLevel : Bool) (n : Nat) (d : Directives) [∀ p, Moves (nested p)]
    [∀ p, Takes (nested p)] : Gentle (code nested topLevel n d) := by
  unfold code
  rw [statementList_eq]
  infer_instance

theorem omitted_of_rests {i j : Input} (h : i.Rests j) : j.omitted = i.omitted := by
  induction h with
  | refl => rfl
  | rescan _ h _ ih => exact ih.trans (congrArg Input.omitted (Input.eq_of_receive h).2 :)
  | noteStart _ ih | noteEnd _ ih | noteTurn _ _ ih => exact ih

variable {isModule : Bool} {limit : Nat} {text : List Char} {s u : State}

theorem start_carrying (isModule : Bool) (text : List Char) :
    start (.initial isModule (.carrying text true)) =
      (State.initial isModule (.carrying text true)).receive ((standing text true 0).next .regExp) := by
  rw [← ofSource_carrying]
  rfl

/-- The state of a program whose first token has been read. -/
def State.opened (isModule : Bool) (text : List Char) (token : Token) (scanner : Scanner) : State :=
  { State.initial isModule (.carrying text true) with scanner, token }

/-- The recognition of the code behind it. -/
abbrev openedCode (isModule : Bool) (limit : Nat) (text : List Char) (token : Token) (scanner : Scanner) :
    EStateM.Result Fault State Directives :=
  code (derive limit) true (State.opened isModule text token scanner).turns {} (.opened isModule text token scanner)

theorem start_of_next {token : Token} {scanner : Scanner}
    (h : (standing text true 0).next .regExp = (.ok token, scanner)) :
    start (.initial isModule (.carrying text true)) = .ok () (.opened isModule text token scanner) := by
  rw [start_carrying, h]
  rfl

/-- An accepted text is begun, and its code ends it. -/
theorem exists_code_of_run (h : run isModule limit (.carrying text true) = .ok () u) : ∃ token scanner d,
    (standing text true 0).next .regExp = (.ok token, scanner) ∧
      openedCode isModule limit text token scanner = .ok d u ∧ u.token.isEnd = true ∧ Unended u.input := by
  obtain ⟨_, s, hstart, _⟩ := bind_eq_ok.mp h
  obtain ⟨⟨d, hcode⟩, hend⟩ := (program_eq_ok hstart).mp h
  rw [start_carrying] at hstart
  rcases hnext : (standing text true 0).next .regExp with ⟨f | token, scanner⟩ <;> rw [hnext] at hstart <;> cases hstart
  have hpassed := passed_finalState isModule limit text true
  rw [h] at hpassed
  exact ⟨token, scanner, d, rfl, hcode, hend, fun v hv => (hpassed.consumed v hv).1⟩

/-- What is said of the code of a text unless turns are missing is so, as enough are granted. -/
theorem exists_of_ends {P : Directives → State → Prop} {token : Token} {scanner : Scanner}
    (hnext : (standing text true 0).next .regExp = (.ok token, scanner))
    (h : Ends Stalled P (openedCode isModule limit text token scanner)) :
    ∃ d t, P d t ∧ openedCode isModule limit text token scanner = .ok d t := by
  cases hcode : openedCode isModule limit text token scanner with
  | ok d t =>
    rw [hcode] at h
    exact ⟨d, t, h, rfl⟩
  | error f t =>
    rw [hcode] at h
    obtain ⟨p, rfl⟩ := h
    have hfault : fault? isModule limit (.carrying text true) = some (.stalled p) := by
      unfold fault? run
      rw [program_error_of_code (start_of_next hnext) hcode]
    exact absurd rfl (fault_in hfault).kind

end Grammar

/-! ## Following the recognition -/

namespace Insertion

variable {t : Insertion} {isModule : Bool} {limit : Nat} {u : State}

/-- With the semicolon the code ends the text as well. If the semicolon were not all that is inserted, the first would
have read behind it what it cannot read there. -/
theorem Opens.code_omitting (ht : t.Opens) {s₁ s₂ : State} (hs : (Following.omitting ht).After false s₁ s₂)
    {n₁ n₂ : Nat} {d : Directives} (hcode : code (derive limit) true n₁ {} s₁ = .ok d u) (hend : u.token.isEnd = true)
    (hunended : Unended u.input) (hthere : t.OmittedThere u.omitted) :
    Ends Stalled (fun _ v => t.inserted = [';'] ∧ v.token.isEnd = true) (code (derive limit) true n₂ {} s₂) := by
  have hderives : (Following.omitting ht).Derives (derive limit) (derive limit) :=
    Following.derives_derive (Nat.le_refl _)
  have hfollows : Following.Follows (fun _ _ => (Following.omitting ht).After false) d u
      (code (derive limit) true n₂ {} s₂) :=
    hderives.codeToFinish (fun _ _ hhalted hfinish => hhalted.not_omitted hfinish.1) true n₁ n₂
      ⟨fun _ => rfl, fun _ => rfl⟩ hs hcode ⟨u.input, .done _, hthere, hunended⟩ ⟨hthere, hunended⟩
  suffices h : Following.Follows (fun _ _ _ v => t.inserted = [';'] ∧ v.token.isEnd = true) d u
      (code (derive limit) true n₂ {} s₂) from ends_of_follows h
  refine hfollows.mono fun d₂ v hafter => ?_
  rcases hafter.input with hinput | hhalted
  · cases hinput with
    | front _ _ _ _ _ _ _ _ _ hnot => exact absurd hthere hnot
    | waits _ hdivision => cases hend.symm.trans (Comparison.isEnd_of_isDivision hdivision)
    | behind hgoes => exact ⟨hgoes.inserted, (hgoes.twins ht).isEnd.trans hend⟩
  · exact absurd hthere hhalted.not_omitted

theorem Opens.run_omitting (ht : t.Opens) (h : run isModule limit (.carrying t.plain true) = .ok () u)
    (hthere : t.OmittedThere u.omitted) :
    t.inserted = [';'] ∧ ∃ v, run isModule limit (.carrying t.whole true) = .ok () v := by
  obtain ⟨token, scanner, d, hnext, hcode, hend, hunended⟩ := exists_code_of_run h
  have hpos : 0 < byteLength t.before := by
    rw [← offset_before]
    exact offset_placeAt_lt (List.length_pos_iff.mpr ht.before_ne) before_le
  have hnone : ¬ t.OmittedThere [] := fun ⟨_, hp, _⟩ => nomatch hp
  have hread :
      Approaches t .regExp 0 ((standing t.plain true 0).next .regExp) ((standing t.whole true 0).next .regExp) :=
    next_front ht.closed (Nat.zero_le _) fun h => absurd h (by decide)
  rw [hnext] at hread
  cases hread with
  | stops hfails => cases hfails
  | misses hfirst hm =>
    cases hfirst
    have hstuck : t.Stuck (State.opened isModule t.plain token scanner).input := ⟨hm, hnone⟩
    exact absurd hthere (not_omittedThere (Gentle.leads inferInstance hcode) hunended hstuck (Nat.ne_of_lt hpos))
  | reads span hs hle hfirst hnext₂ =>
    cases hfirst
    have hafter : (Following.omitting ht).After false
        (.opened isModule t.plain (span.token t.plain) (standing t.plain true span.behind))
        (.opened isModule t.whole (span.token t.whole) (standing t.whole true span.behind)) :=
      { isModule := rfl
        context := .refl _
        labels := rfl
        attachedLabels := rfl
        classDepth := rfl
        input := .inl (.front span hs hle rfl rfl rfl rfl rfl hpos hnone) }
    obtain ⟨d₂, v, ⟨hinserted, hend₂⟩, hcode₂⟩ :=
      exists_of_ends hnext₂ (ht.code_omitting hafter hcode hend hunended hthere)
    exact ⟨hinserted, v, (program_eq_ok (start_of_next hnext₂)).mpr ⟨⟨d₂, hcode₂⟩, hend₂⟩⟩

/-- No semicolon is omitted before the first token. -/
theorem not_omittedThere_of_nil (hbefore : t.before = []) (h : run isModule limit (.carrying t.plain true) = .ok () u) :
    ¬ t.OmittedThere u.omitted := by
  obtain ⟨token, scanner, d, hnext, hcode, -, hunended⟩ := exists_code_of_run h
  have hnone : ¬ t.OmittedThere [] := fun ⟨_, hp, _⟩ => nomatch hp
  rcases Gentle.rests_or_takes hcode with hrests | htakes
  · rw [show u.omitted = [] from omitted_of_rests hrests]
    exact hnone
  · have hgives := gives (Nat.zero_le _) (fun h => absurd h (by decide)) hnext
    have hmissed : t.Missed token scanner := .of_behind (by rw [hbefore]; exact Nat.le_refl 0) hgives
    have hstuck : t.Stuck (State.opened isModule t.plain token scanner).input := ⟨hmissed, hnone⟩
    exact fun hthere => hstuck.not_omits htakes (.done _) ⟨hthere, hunended⟩

/-! ## The semicolon -/

/-- What is inserted where the text does not go on as a statement. -/
def literalStatement : List Char :=
  [';', '/', ' ', '/', ';']

/-- Behind the semicolon of the literal the literal is read. -/
theorem next_literalStatement (hinserted : t.inserted = literalStatement) :
    ∃ token scanner, (standing t.whole true (t.before.length + 1)).next .regExp = (.ok token, scanner) ∧
      token.kind = .regExp := by
  have hlength := length_whole (t := t)
  have hbefore := before_le (t := t)
  have hfive : literalStatement.length = 5 := rfl
  rw [hinserted, hfive] at hlength
  have hrest : (standing t.whole true (t.before.length + 1)).rest =
      '/' :: ' ' :: '/' :: ';' :: (t.after ++ ['\n']) := by
    rw [rest_standing_true (by omega), ← List.drop_drop, whole, List.drop_left, hinserted]
    rfl
  let span : Span := ⟨.regExp, t.before.length + 1, t.before.length + 4, false⟩
  have hread : span.Read t.whole .regExp (t.before.length + 1) := by
    refine ⟨Nat.le_refl _, Nat.lt_add_of_pos_right (n := t.before.length + 1) (k := 3) (by decide), ?_, ?_, ?_⟩
    · change t.before.length + 4 ≤ _
      omega
    · change _ = (⟨t.before.length + 1 - (t.before.length + 1), .ok false⟩ : Reading Misreading Bool)
      rw [skipGap, if_neg (by decide), hrest, Nat.sub_self, gap]
      · exact gapFrom_slash
      · exact fun _ h => absurd (List.cons.inj h).1 (by decide)
    · change element true .regExp (standing t.whole true (t.before.length + 1)).rest =
        (⟨t.before.length + 4 - (t.before.length + 1), .ok .regExp⟩ : Reading Misreading TokenKind)
      rw [hrest, element_slash_regExp, show t.before.length + 4 - (t.before.length + 1) = 3 by omega]
      rfl
  exact ⟨_, _, hread.next, rfl⟩

end Insertion

/-- Where a semicolon has been omitted it may be written. -/
theorem run_semicolon {isModule : Bool} {limit n : Nat} {text : List Char} {u : State} (hn : n ≤ text.length)
    (h : run isModule limit (.carrying text true) = .ok () u) (hp : ∃ p ∈ u.omitted, p = placeAt text n) :
    ∃ v, run isModule limit (.carrying (text.take n ++ ';' :: text.drop n) true) = .ok () v := by
  let t (inserted : List Char) : Insertion := ⟨text.take n, inserted, text.drop n⟩
  have hplain (inserted : List Char) : (t inserted).plain = text := List.take_append_drop n text
  have hthere (inserted : List Char) : (t inserted).OmittedThere u.omitted := by
    obtain ⟨p, hp, rfl⟩ := hp
    exact ⟨_, hp, offset_placeAt hn⟩
  have hrun (inserted : List Char) : run isModule limit (.carrying (t inserted).plain true) = .ok () u := by
    rw [hplain]
    exact h
  have hne : text.take n ≠ [] := fun hnil => Insertion.not_omittedThere_of_nil (t := t []) hnil (hrun []) (hthere [])
  cases hreads : ((standing text true n).next .regExp).1 with
  | ok token =>
    have ht : (t [';']).Opens := by
      refine ⟨hne, ⟨[], rfl⟩, .inl ⟨rfl, token, ?_⟩⟩
      rw [hplain]
      change ((standing text true (text.take n).length).next .regExp).1 = _
      rwa [List.length_take_of_le hn]
    exact (ht.run_omitting (hrun _) (hthere _)).2
  | error f =>
    have ht : (t Insertion.literalStatement).Opens := by
      refine ⟨hne, ⟨_, rfl⟩, .inr ⟨⟨f, ?_⟩, Insertion.next_literalStatement rfl⟩⟩
      rw [hplain]
      change ((standing text true (text.take n).length).next .regExp).1 = _
      rwa [List.length_take_of_le hn]
    exact nomatch (ht.run_omitting (hrun _) (hthere _)).1

/-- An accepted text is accepted with a semicolon where a statement of it has ended without one. -/
theorem checkBuffer_semicolon (options : Options) (text : List Char) (p : Position)
    (haccepted : checkBuffer options (Utf8.encode text) = .ok)
    (hp : p ∈ (finalState (run (options.sourceType = .module) options.maxDepth (.carrying text true))).omitted) :
    checkBuffer options
      ((Utf8.encode text).take p.offset ++ Utf8.encode [';'] ++ (Utf8.encode text).drop p.offset) = .ok := by
  obtain ⟨u, hrun⟩ := checkBuffer_encode_eq_ok.mp haccepted
  have hpassed := passed_finalState (options.sourceType = .module) options.maxDepth text true
  rw [hrun] at hp hpassed
  obtain ⟨n, hn, rfl⟩ : ∃ n ≤ text.length, p = placeAt text n := by
    obtain ⟨token, scanner, d, -, hcode, -, -⟩ := exists_code_of_run hrun
    have hplaces := omitted_of_leads (Gentle.leads inferInstance hcode) fun _ hp => absurd hp List.not_mem_nil
    rcases hplaces p hp with rfl | ⟨v, hv, rfl⟩
    · exact ⟨0, Nat.zero_le _, (placeAt_zero text).symm⟩
    · obtain ⟨-, m, n, -, hn, -, hstop, -⟩ := hpassed.consumed v hv
      exact ⟨n, hn, hstop⟩
  have hlength : (placeAt text n).offset = (Utf8.encode (text.take n)).length := by
    rw [offset_placeAt hn, Utf8.length_encode]
  have hbytes : Utf8.encode text = Utf8.encode (text.take n) ++ Utf8.encode (text.drop n) := by
    rw [← Utf8.encode_append, List.take_append_drop]
  have hwhole : (Utf8.encode text).take (placeAt text n).offset ++ Utf8.encode [';'] ++
      (Utf8.encode text).drop (placeAt text n).offset = Utf8.encode (text.take n ++ ';' :: text.drop n) := by
    rw [hbytes, hlength, List.take_left, List.drop_left, ← Utf8.encode_append, ← Utf8.encode_append, List.append_assoc]
    rfl
  rw [hwhole, checkBuffer_encode_eq_ok]
  exact run_semicolon hn hrun ⟨_, hp, rfl⟩

/-- Behind the declaration and the loop a semicolon is omitted, and a regular expression follows. -/
theorem checkBuffer_semicolon_literal :
    ∃ p ∈ (finalState (run false 1024 (.carrying "let x\n/a/; do ; while (x) /b/".toList true))).omitted, p.offset = 5 ∧
      checkBuffer {} (Utf8.encode "let x\n/a/; do ; while (x) /b/".toList) = .ok ∧
      checkBuffer {} ((Utf8.encode "let x\n/a/; do ; while (x) /b/".toList).take p.offset ++ Utf8.encode [';'] ++
        (Utf8.encode "let x\n/a/; do ; while (x) /b/".toList).drop p.offset) = .ok := by
  have haccepted : checkBuffer {} (Utf8.encode "let x\n/a/; do ; while (x) /b/".toList) = .ok := by decide +kernel
  have hp : ∃ p ∈ (finalState (run false 1024 (.carrying "let x\n/a/; do ; while (x) /b/".toList true))).omitted,
      p.offset = 5 := by
    decide +kernel
  obtain ⟨p, hp, hoffset⟩ := hp
  exact ⟨p, hp, hoffset, haccepted, checkBuffer_semicolon {} _ p haccepted hp⟩

end EcmaCheck
