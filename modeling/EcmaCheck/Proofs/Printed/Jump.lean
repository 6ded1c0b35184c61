import EcmaCheck.Proofs.Printed.Control
import EcmaCheck.Proofs.Printed.Program

/-!
# Labels and jumps

Trees of statements, with labels, loops and functions one inside the other to any depth, and with jumps out of them.
Where a jump may go, what stands around it says (`Scope`). A statement keeps track of that in the state: the labels
around it with the marks of those that label loops, how many of them label it directly, and what of loops and `switch`
is around (`Tracks`).
-/

namespace EcmaCheck

/-- The kinds of loop. -/
inductive LoopKind where
  | while
  | doWhile
  | for
  deriving DecidableEq, Repr

/-- A statement with its jumps. -/
inductive Tree where
  | empty
  | block (body : List Tree)
  | labelled (label : Variable) (body : Tree)
  | loop (kind : LoopKind) (body : Tree)
  | ifElse (yes no : Tree)
  | switch (zero others : List Tree)
  | tryFinally (body final : List Tree)
  | break (label? : Option Variable)
  | continue (label? : Option Variable)
  | function (arrow : Bool) (body : List Tree)

/-! ## Where jumps may go -/

/-- What stands around a statement in its function. -/
structure Scope where
  /-- The labels of the statements around. -/
  labels : List String := []
  /-- The labels that loops around have, directly or through a chain of labels. -/
  loops : List String := []
  /-- The labels that the statement has. -/
  attached : List String := []
  inLoop : Bool := false
  /-- Whether a loop or a `switch` statement is around. -/
  inBreakable : Bool := false

namespace Scope

/-- The scope of a statement that is no label's own. -/
def detached (c : Scope) : Scope :=
  { c with attached := [] }

/-- The scope after a label. -/
def label (c : Scope) (name : String) : Scope :=
  { c with labels := name :: c.labels, attached := name :: c.attached }

/-- The scope of the body of a loop. -/
def looping (c : Scope) : Scope :=
  { c with loops := c.attached ++ c.loops, attached := [], inLoop := true, inBreakable := true }

/-- The scope of the statements of a `switch`. -/
def switching (c : Scope) : Scope :=
  { c with attached := [], inBreakable := true }

end Scope

mutual

/-- Whether no label in the statement is around itself, and all jumps have somewhere to go. -/
def Tree.valid (c : Scope) : Tree → Bool
  | .empty => true
  | .block body => allValid c.detached body
  | .labelled label body => !c.labels.contains label.name && body.valid (c.label label.name)
  | .loop _ body => body.valid c.looping
  | .ifElse yes no => yes.valid c.detached && no.valid c.detached
  | .switch zero others => allValid c.switching zero && allValid c.switching others
  | .tryFinally body final => allValid c.detached body && allValid c.detached final
  | .break none => c.inBreakable
  | .break (some label) => c.labels.contains label.name
  | .continue none => c.inLoop
  | .continue (some label) => c.loops.contains label.name
  | .function _ body => allValid {} body

/-- Whether all the statements are valid. -/
def allValid (c : Scope) : List Tree → Bool
  | [] => true
  | s :: ss => s.valid c && allValid c ss

end

/-! ## Printing -/

open Punctuator (piece)

/-- The condition in parentheses. -/
def conditionPieces : List Piece :=
  [piece .openParen, .lexeme (.literal Grammar.zero), piece .closeParen]

mutual

/-- The statement as it is printed. -/
def Tree.pieces : Tree → List Piece
  | .empty => [piece .semicolon]
  | .block body => piece .openBrace :: .space :: (allPieces body ++ [piece .closeBrace])
  | .labelled label body => label.piece :: piece .colon :: .space :: body.pieces
  | .loop .while body => Keyword.while.word.piece :: .space :: (conditionPieces ++ .space :: body.pieces)
  | .loop .doWhile body =>
    Keyword.do.word.piece :: .space :: (body.pieces ++ .space :: Keyword.while.word.piece :: .space ::
      (conditionPieces ++ [piece .semicolon]))
  | .loop .for body =>
    Keyword.for.word.piece :: .space :: piece .openParen :: piece .semicolon :: piece .semicolon :: piece .closeParen ::
      .space :: body.pieces
  | .ifElse yes no =>
    Keyword.if.word.piece :: .space :: (conditionPieces ++ .space :: (yes.pieces ++ .space ::
      Keyword.else.word.piece :: .space :: no.pieces))
  | .switch zero others =>
    Keyword.switch.word.piece :: .space :: (conditionPieces ++ .space :: piece .openBrace :: .space ::
      Keyword.case.word.piece :: .space :: .lexeme (.literal Grammar.zero) :: piece .colon :: .space ::
      (allPieces zero ++ Keyword.default.word.piece :: piece .colon :: .space ::
        (allPieces others ++ [piece .closeBrace])))
  | .tryFinally body final =>
    Keyword.try.word.piece :: .space :: piece .openBrace :: .space :: (allPieces body ++ piece .closeBrace :: .space ::
      Keyword.finally.word.piece :: .space :: piece .openBrace :: .space :: (allPieces final ++ [piece .closeBrace]))
  | .break label? => Keyword.break.word.piece :: jumpEnd label?
  | .continue label? => Keyword.continue.word.piece :: jumpEnd label?
  | .function arrow body =>
    piece .openParen :: ((if arrow then arrowOpening else functionOpening) ++ .space :: piece .openBrace :: .space ::
      (allPieces body ++ [piece .closeBrace, piece .closeParen, piece .semicolon]))
where
  /-- The label of a jump, if it has one, and the semicolon. -/
  jumpEnd : Option Variable → List Piece
    | none => [piece .semicolon]
    | some label => [.space, label.piece, piece .semicolon]
  functionOpening : List Piece :=
    [Keyword.function.word.piece, .space, piece .openParen, piece .closeParen]
  arrowOpening : List Piece :=
    [piece .openParen, piece .closeParen, .space, piece .arrow]

/-- The statements as they are printed, with a space after each. -/
def allPieces : List Tree → List Piece
  | [] => []
  | s :: ss => s.pieces ++ .space :: allPieces ss

end

mutual

/-- What follows a statement does not change how it is read. -/
theorem sound_tree (tree : Tree) (rest : List Piece) : Sound (tree.pieces ++ rest) = Sound rest := by
  cases tree with
  | empty => exact sound_whole rfl rest
  | block body =>
    change Sound (allPieces body ++ _ ++ rest) = _
    rw [List.append_assoc, sound_trees]
    exact sound_whole rfl rest
  | labelled label body => exact sound_tree body rest
  | loop kind body =>
    cases kind with
    | «while» => exact sound_tree body rest
    | doWhile =>
      change Sound (body.pieces ++ _ ++ rest) = _
      rw [List.append_assoc, sound_tree]
      exact sound_whole rfl rest
    | «for» => exact sound_tree body rest
  | ifElse yes no =>
    change Sound (yes.pieces ++ _ ++ rest) = _
    rw [List.append_assoc, sound_tree]
    exact sound_tree no rest
  | switch zero others =>
    change Sound (allPieces zero ++ _ ++ rest) = _
    rw [List.append_assoc, sound_trees]
    change Sound (allPieces others ++ _ ++ rest) = _
    rw [List.append_assoc, sound_trees]
    exact sound_whole rfl rest
  | tryFinally body final =>
    change Sound (allPieces body ++ _ ++ rest) = _
    rw [List.append_assoc, sound_trees]
    change Sound (allPieces final ++ _ ++ rest) = _
    rw [List.append_assoc, sound_trees]
    exact sound_whole rfl rest
  | «break» label? => cases label? <;> exact sound_whole rfl rest
  | «continue» label? => cases label? <;> exact sound_whole rfl rest
  | function arrow body =>
    cases arrow with
    | false =>
      change Sound (allPieces body ++ _ ++ rest) = _
      rw [List.append_assoc, sound_trees]
      exact sound_whole rfl rest
    | true =>
      change Sound (allPieces body ++ _ ++ rest) = _
      rw [List.append_assoc, sound_trees]
      exact sound_whole rfl rest

theorem sound_trees (ss : List Tree) (rest : List Piece) : Sound (allPieces ss ++ rest) = Sound rest := by
  cases ss with
  | nil => rfl
  | cons s ss =>
    rw [allPieces, List.append_assoc, sound_tree]
    exact sound_trees ss rest

end

theorem lexemes_allPieces (ss : List Tree) : lexemes (allPieces ss) = ss.flatMap fun s => lexemes s.pieces := by
  induction ss with
  | nil => rfl
  | cons s ss ih =>
    rw [allPieces, lexemes_append, List.flatMap_cons, ← ih]
    rfl

theorem allValid_iff (c : Scope) (ss : List Tree) : allValid c ss = true ↔ ∀ s ∈ ss, s.valid c = true := by
  induction ss with
  | nil => simp [allValid]
  | cons s ss ih => rw [allValid, Bool.and_eq_true, ih, List.forall_mem_cons]

/-! ## Keeping track of the scope -/

namespace Grammar

/-- The state knows what stands around the statement. -/
structure Tracks (s : State) (c : Scope) : Prop where
  sloppy : s.context.Free false
  isModule : s.isModule = false
  inLoop : s.context.inIteration = c.inLoop
  inBreakable : s.context.inBreakable = c.inBreakable
  names : s.labels.map Label.name = c.labels
  nodup : c.labels.Nodup
  attached : c.attached = c.labels.take s.attachedLabels
  loops : ∀ l ∈ s.labels, l.iteration = true ↔ l.name ∈ c.loops
  known : ∀ name ∈ c.loops, name ∈ c.labels

namespace Tracks

variable {s t : State} {c : Scope}

theorem of_eq (h : Tracks s c) (hcontext : t.context = s.context) (hmodule : t.isModule = s.isModule)
    (hlabels : t.labels = s.labels) (hattached : t.attachedLabels = s.attachedLabels) : Tracks t c where
  sloppy := hcontext ▸ h.sloppy
  isModule := hmodule.trans h.isModule
  inLoop := hcontext ▸ h.inLoop
  inBreakable := hcontext ▸ h.inBreakable
  names := hlabels ▸ h.names
  nodup := h.nodup
  attached := hattached ▸ h.attached
  loops := hlabels ▸ h.loops
  known := h.known

/-- Nothing is around the first statements of a program or a function. -/
theorem outermost (hsloppy : s.context.Free false) (hloop : s.context.inIteration = false)
    (hbreakable : s.context.inBreakable = false) (hmodule : s.isModule = false) (hlabels : s.labels = []) :
    Tracks s {} := by
  refine ⟨hsloppy, hmodule, hloop, hbreakable, ?_, List.nodup_nil, List.take_nil.symm, ?_, ?_⟩
  · rw [hlabels]
    rfl
  · rw [hlabels]
    exact fun l hl => nomatch hl
  · exact fun name hname => nomatch hname

theorem of_agrees (h : Tracks s c) (ht : s.Agrees t) : Tracks t c :=
  h.of_eq ht.context ht.isModule ht.labels ht.attachedLabels

theorem deepened (h : Tracks s c) : Tracks s.deepened c :=
  h.of_eq rfl rfl rfl rfl

theorem detached (h : Tracks s c) : Tracks s.detached c.detached :=
  { h with attached := rfl }

theorem switching (h : Tracks s c) (hattached : s.attachedLabels = 0) : Tracks s.switching c.switching :=
  { h with
    sloppy := { h.sloppy with }
    inBreakable := rfl
    attached := by
      change [] = c.labels.take s.attachedLabels
      rw [hattached]
      rfl }

/-- A label that is not around yet. -/
theorem label (h : Tracks s c) {name : String} (hname : name ∉ c.labels) (n : Nat) (hn : n = s.attachedLabels) :
    Tracks { s with labels := ⟨name, false⟩ :: s.labels, attachedLabels := n + 1 } (c.label name) where
  sloppy := h.sloppy
  isModule := h.isModule
  inLoop := h.inLoop
  inBreakable := h.inBreakable
  names := congrArg (name :: ·) h.names
  nodup := List.nodup_cons.mpr ⟨hname, h.nodup⟩
  attached := by
    subst hn
    exact congrArg (name :: ·) h.attached
  loops := by
    intro l hl
    rcases List.mem_cons.mp hl with rfl | hl
    · exact iff_of_false Bool.false_ne_true fun hloop => hname (h.known name hloop)
    · exact h.loops l hl
  known _ hloop := List.mem_cons_of_mem name (h.known _ hloop)

end Tracks

theorem names_markIteration (n : Nat) (labels : List Label) :
    (markIteration n labels).map Label.name = labels.map Label.name := by
  unfold markIteration
  rw [List.map_append, List.map_map]
  change (labels.take n).map Label.name ++ (labels.drop n).map Label.name = _
  rw [← List.map_append, List.take_append_drop]

/-- In the body of a loop, its labels label a loop, and none is attached. -/
theorem Tracks.looping {s t : State} {c : Scope} (h : Tracks s c) (ht : s.marked.Agrees t) :
    Tracks t.looping c.looping := by
  have hlabels : t.labels = markIteration s.attachedLabels s.labels := ht.labels
  have hcontext : t.context = s.context := ht.context
  refine ⟨?_, ht.isModule.trans h.isModule, rfl, rfl, ?_, h.nodup, ?_, ?_, ?_⟩
  · have hsloppy : t.context.Free false := hcontext ▸ h.sloppy
    exact { hsloppy with }
  · change t.labels.map Label.name = c.labels
    rw [hlabels, names_markIteration]
    exact h.names
  · have hnone : t.attachedLabels = 0 := ht.attachedLabels
    change [] = c.labels.take t.attachedLabels
    rw [hnone]
    rfl
  · intro l hl
    change l ∈ t.labels at hl
    change l.iteration = true ↔ l.name ∈ c.attached ++ c.loops
    rw [hlabels] at hl
    have hnames (k : Nat) : (s.labels.take k).map Label.name = c.labels.take k := by rw [List.map_take, h.names]
    rcases List.mem_append.mp hl with hl | hl
    · obtain ⟨inner, hinner, rfl⟩ := List.mem_map.mp hl
      refine iff_of_true rfl (List.mem_append_left _ ?_)
      rw [h.attached, ← hnames]
      exact List.mem_map.mpr ⟨inner, hinner, rfl⟩
    · have hdrop : l.name ∈ c.labels.drop s.attachedLabels := by
        rw [← h.names, ← List.map_drop]
        exact List.mem_map_of_mem hl
      have hnot : l.name ∉ c.attached := by
        have hnodup := h.nodup
        rw [← List.take_append_drop s.attachedLabels c.labels] at hnodup
        rw [h.attached]
        exact fun htake => (List.nodup_append.mp hnodup).2.2 _ htake _ hdrop rfl
      rw [h.loops l (List.mem_of_mem_drop hl), List.mem_append]
      exact ⟨.inr, fun hloop => hloop.resolve_left hnot⟩
  · intro name hloop
    rcases List.mem_append.mp hloop with hattached | hloop
    · rw [h.attached] at hattached
      exact List.mem_of_mem_take hattached
    · exact h.known name hloop

/-- A label can be continued just if it labels a loop. -/
theorem continueError?_eq_none_iff {s : State} {c : Scope} (h : Tracks s c) (name : String) :
    continueError? s.labels name = none ↔ name ∈ c.loops := by
  unfold continueError?
  cases hfind : s.labels.find? (·.name = name) with
  | none =>
    refine iff_of_false nofun fun hloop => ?_
    have hknown := h.known name hloop
    rw [← h.names] at hknown
    obtain ⟨l, hl, rfl⟩ := List.mem_map.mp hknown
    exact List.find?_eq_none.mp hfind l hl (decide_eq_true rfl)
  | some l =>
    have hname : l.name = name :=
      of_decide_eq_true (List.find?_some (p := fun l : Label => decide (l.name = name)) hfind)
    have hiff := h.loops l (List.mem_of_find?_eq_some hfind)
    rw [hname] at hiff
    rw [← hiff]
    dsimp only
    cases l.iteration <;> simp

/-! ## Statements -/

/-- A statement is decided by its scope, whatever labels are attached to it. -/
def TreeDecided (tree : Tree) : Prop :=
  ∀ (levels : Nat) (s : State) (c : Scope) (ls : List Lexeme), Tracks s c → s.Faces (lexemes tree.pieces ++ ls) →
    Concluded (tree.valid c = true) (fun _ t => t.isModule = s.isModule ∧ t.Faces ls) (derive levels .statement s)

section

variable {s : State} {v : Prop} {c : Scope} {ls ms : List Lexeme} {levels : Nat} {tree : Tree} {ss : List Tree}

/-- What restores the surroundings and is decided otherwise. -/
theorem decided_of_restoring {x : Recognizer Unit} (hx : Has restoring.outer x) (hattached : s.attachedLabels = 0)
    (h : Concluded v (fun _ t => t.isModule = s.isModule ∧ t.Faces ls) (x s)) :
    Decided s v ls (fun _ => True) (x s) := by
  cases hrun : x s with
  | ok a t =>
    rw [hrun] at h
    exact ⟨h.1, ⟨⟨surroundings_of_ok hx hattached hrun, h.2.1⟩, h.2.2⟩, trivial⟩
  | error f t =>
    rw [hrun] at h
    exact h

/-- Without labels attached, a statement leaves the surroundings as they were. -/
theorem TreeDecided.statement (h : TreeDecided tree) (hs : Tracks s c) (hattached : s.attachedLabels = 0)
    (hfaces : s.Faces (lexemes tree.pieces ++ ls)) :
    Decided s (tree.valid c = true) ls (fun _ => True) (derive levels .statement s) :=
  decided_of_restoring ((derive_restoring levels).has .statement) hattached (h levels s c ls hs hfaces)

/-- What a statement without a label begins with. -/
def beginnings : List TokenKind :=
  [.punctuator .semicolon, .punctuator .openBrace, .punctuator .openParen, .keyword .while, .keyword .do, .keyword .for,
    .keyword .if, .keyword .switch, .keyword .try, .keyword .break, .keyword .continue]

theorem tree_begins (tree : Tree) :
    (∃ first rest, lexemes tree.pieces = first :: rest ∧ first.kind ∈ beginnings) ∨
      ∃ label body, tree = .labelled label body := by
  have hkeyword {k : Keyword} (h : .keyword k ∈ beginnings) : (Lexeme.word k.word).kind ∈ beginnings := by
    change Word.kind _ ∈ beginnings
    rwa [Keyword.kind_word]
  cases tree with
  | labelled label body => exact .inr ⟨label, body, rfl⟩
  | empty | block | function => exact .inl ⟨_, _, rfl, by decide⟩
  | loop kind body => cases kind <;> exact .inl ⟨_, _, rfl, hkeyword (by decide)⟩
  | ifElse | switch | tryFinally | «break» | «continue» => exact .inl ⟨_, _, rfl, hkeyword (by decide)⟩

theorem goes_of_beginnings {first : Lexeme} (h : first.kind ∈ beginnings) :
    Goes first ∧ first.kind ≠ .keyword .function ∧ first.kind.beginsStatement = true ∧
      ∀ legacy, first.kind ≠ .string legacy := by
  have hall : ∀ k ∈ beginnings, (k ≠ .punctuator .closeBrace ∧ k ≠ .keyword .case ∧ k ≠ .keyword .default ∧
      k ≠ .endOfInput) ∧ k ≠ .keyword .function ∧ k.beginsStatement = true ∧ ∀ legacy, k ≠ .string legacy := by decide
  exact hall _ h

/-- What any statement begins with. -/
theorem tree_first (tree : Tree) : ∃ first rest, lexemes tree.pieces = first :: rest ∧ Goes first ∧
    first.kind ≠ .keyword .function ∧ ∀ legacy, first.kind ≠ .string legacy := by
  rcases tree_begins tree with ⟨first, rest, hfirst, hkind⟩ | ⟨label, body, rfl⟩
  · obtain ⟨hgoes, hfunction, _, hstring⟩ := goes_of_beginnings hkind
    exact ⟨first, rest, hfirst, hgoes, hfunction, hstring⟩
  · refine ⟨_, _, rfl, ⟨?_, ?_, ?_, ?_⟩, ?_, fun legacy => ?_⟩ <;> exact variable_ne label nofun

/-- A statement in a list. -/
theorem TreeDecided.item {topLevel : Bool} (h : TreeDecided tree) (hs : Tracks s c) (hattached : s.attachedLabels = 0)
    (hfaces : s.Faces (lexemes tree.pieces ++ ls)) :
    Decided s (tree.valid c = true) ls (fun _ => True) (derive levels (.statementListItem topLevel) s) := by
  refine derive_decided (p := .statementListItem topLevel) fun n _ => ?_
  have hfaces' : s.deepened.Faces (lexemes tree.pieces ++ ls) := hfaces.of_eq rfl rfl
  have hstatement : Decided s.deepened (tree.valid c = true) ls (fun _ => True) (derive n .statement s.deepened) :=
    h.statement hs.deepened hattached hfaces'
  rcases tree_begins tree with ⟨first, rest, hfirst, hkind⟩ | ⟨label, body, rfl⟩
  · rw [hfirst] at hfaces'
    exact listItem_decided hfaces' (goes_of_beginnings hkind).2.2.1 hstatement
  · exact listItem_name hfaces' (fun _ => ⟨by decide, by decide, hs.sloppy.strict_eq⟩) hstatement

/-- Statements in a list. -/
theorem trees_decided {topLevel : Bool} (hall : ∀ tree ∈ ss, TreeDecided tree) (hs : Tracks s c)
    (hattached : s.attachedLabels = 0) (hend : EndsList ls) (hfaces : s.Faces (lexemes (allPieces ss) ++ ls)) :
    Decided s (allValid c ss = true) ls (fun _ => True) (statementList (derive levels) topLevel s) := by
  rw [lexemes_allPieces] at hfaces
  refine Decided.iff (statementList_decided ss (fun tree => lexemes tree.pieces) (fun tree => tree.valid c = true)
    (fun tree htree t ms ht => ?_) (fun tree _ => ?_) hend hfaces) (allValid_iff c ss).symm
  · exact (hall tree htree).item (hs.of_agrees ht.toAgrees) (ht.attachedLabels.trans hattached) ht.faces
  · obtain ⟨first, rest, hfirst, hgoes, _⟩ := tree_first tree
    exact ⟨first, rest, hfirst, hgoes.2.2.2, hgoes.1⟩

/-- What the expansion of a statement decides, the statement decides. -/
theorem TreeDecided.of_expand (h : ∀ (n : Nat) (s : State) (c : Scope) (ls : List Lexeme), Tracks s c →
      s.Faces (lexemes tree.pieces ++ ls) →
      Concluded (tree.valid c = true) (fun _ t => t.isModule = s.isModule ∧ t.Faces ls)
        (expandStatement (derive n) s)) :
    TreeDecided tree := by
  intro levels s c ls hs hfaces
  refine derive_concluded (p := .statement) fun n _ => ?_
  refine (h n s.deepened c ls hs.deepened (hfaces.of_eq rfl rfl)).imp fun _ _ _ ht => ?_
  exact ⟨ht.1, ht.2.of_eq rfl rfl⟩

theorem concluded_of_decided {t : State} {x : Recognizer Unit} {R : Unit → Prop} (hmodule : t.isModule = s.isModule)
    (h : Decided t v ls R (x t)) : Concluded v (fun _ u => u.isModule = s.isModule ∧ u.Faces ls) (x t) :=
  Concluded.imp h fun _ _ _ hu => ⟨hu.1.isModule.trans hmodule, hu.1.faces⟩

/-! ### The forms of statements -/

theorem tree_empty : TreeDecided .empty := by
  refine .of_expand fun n s c ls hs hfaces => ?_
  have hfaces' : s.detached.Faces (.punctuator .semicolon :: ls) := faces_detached hfaces
  rw [expandStatement_empty hfaces.kind]
  exact (concluded_of_decided rfl (Decided.lastAdvance (.refl hfaces') (by decide))).iff (iff_of_true trivial rfl)

/-- Statements and what closes them. -/
theorem lexemes_body (ss : List Tree) (ps : List Piece) (ls : List Lexeme) :
    lexemes (allPieces ss ++ ps) ++ ls = lexemes (allPieces ss) ++ (lexemes ps ++ ls) := by
  rw [lexemes_append, List.append_assoc]

theorem lexemes_inner (tree : Tree) (ps : List Piece) (ls : List Lexeme) :
    lexemes (tree.pieces ++ ps) ++ ls = lexemes tree.pieces ++ (lexemes ps ++ ls) := by
  rw [lexemes_append, List.append_assoc]

theorem tree_block (hall : ∀ tree ∈ ss, TreeDecided tree) : TreeDecided (.block ss) := by
  refine .of_expand fun n s c ls hs hfaces => ?_
  have hfaces : s.Faces (.punctuator .openBrace :: (lexemes (allPieces ss ++ _) ++ ls)) := hfaces
  rw [lexemes_body] at hfaces
  rw [expandStatement_block hfaces.kind]
  refine concluded_of_decided rfl (block_decided (faces_detached hfaces) fun t ht => ?_)
  exact trees_decided hall (hs.detached.of_agrees ht.toAgrees) ht.attachedLabels rfl ht.faces

theorem tree_loop {kind : LoopKind} {body : Tree} (h : TreeDecided body) : TreeDecided (.loop kind body) := by
  refine .of_expand fun n s c ls hs hfaces => ?_
  have hplain : s.marked.context.Plain := hs.sloppy.toPlain
  have hbody (t : State) (ms : List Lexeme) (ht : s.marked.Reaches t (lexemes body.pieces ++ ms)) :
      Decided t.looping (body.valid c.looping = true) ms (fun _ => True) (derive n .statement t.looping) :=
    h.statement (hs.looping ht.toAgrees) ht.attachedLabels (ht.faces.of_eq rfl rfl)
  cases kind with
  | «while» =>
    rw [expandStatement_while (hfaces.kind.trans (Keyword.kind_word .while))]
    refine .markLabels ?_
    exact concluded_of_decided rfl (whileStatement_decided hplain (hfaces.of_eq rfl rfl) fun t ht => hbody t ls ht)
  | doWhile =>
    have hfaces : s.Faces (.word Keyword.do.word :: (lexemes (body.pieces ++ _) ++ ls)) := hfaces
    rw [lexemes_inner] at hfaces
    rw [expandStatement_do (hfaces.kind.trans (Keyword.kind_word .do))]
    refine .markLabels ?_
    exact concluded_of_decided rfl (doStatement_decided hplain (hfaces.of_eq rfl rfl) fun t ht => hbody t _ ht)
  | «for» =>
    rw [expandStatement_for (hfaces.kind.trans (Keyword.kind_word .for))]
    refine .markLabels ?_
    exact concluded_of_decided rfl (forStatement_decided (hfaces.of_eq rfl rfl) fun t ht => hbody t ls ht)

theorem tree_ifElse {yes no : Tree} (hyes : TreeDecided yes) (hno : TreeDecided no) :
    TreeDecided (.ifElse yes no) := by
  refine .of_expand fun n s c ls hs hfaces => ?_
  have hfaces : s.Faces (.word Keyword.if.word :: .punctuator .openParen :: .literal zero :: .punctuator .closeParen ::
    (lexemes (yes.pieces ++ _) ++ ls)) := hfaces
  rw [lexemes_inner] at hfaces
  have hfaces : s.Faces (_ :: _ :: _ :: _ ::
    (lexemes yes.pieces ++ .word Keyword.else.word :: (lexemes no.pieces ++ ls))) := hfaces
  rw [expandStatement_if (hfaces.kind.trans (Keyword.kind_word .if))]
  have hbranch (tree : Tree) (h : TreeDecided tree) (t : State) (ms : List Lexeme)
      (ht : s.detached.Reaches t (lexemes tree.pieces ++ ms)) :
      Decided t (tree.valid c.detached = true) ms (fun _ => True) (derive n .statement t) :=
    h.statement (hs.detached.of_agrees ht.toAgrees) ht.attachedLabels ht.faces
  obtain ⟨first, rest, hfirst, _, hfirstNot, _⟩ := tree_first yes
  obtain ⟨second, more, hsecond, _, hsecondNot, _⟩ := tree_first no
  have hyes' := hbranch yes hyes
  have hno' := hbranch no hno
  rw [hfirst] at hfaces hyes'
  rw [hsecond] at hfaces hno'
  have hplain : s.detached.context.Plain := hs.sloppy.toPlain
  refine (concluded_of_decided rfl (ifStatement_decided hplain (faces_detached hfaces) hfirstNot hsecondNot
    (fun t ht => hyes' t _ ht) fun t ht => hno' t ls ht)).iff ?_
  exact (iff_of_eq (Bool.and_eq_true _ _)).symm

theorem tree_switch {zero others : List Tree} (hzero : ∀ tree ∈ zero, TreeDecided tree)
    (hothers : ∀ tree ∈ others, TreeDecided tree) : TreeDecided (.switch zero others) := by
  refine .of_expand fun n s c ls hs hfaces => ?_
  have hfaces : s.Faces (.word Keyword.switch.word :: .punctuator .openParen :: .literal Grammar.zero ::
    .punctuator .closeParen :: .punctuator .openBrace :: .word Keyword.case.word :: .literal Grammar.zero ::
    .punctuator .colon :: (lexemes (allPieces zero ++ _) ++ ls)) := hfaces
  rw [lexemes_body] at hfaces
  have hfaces : s.Faces (_ :: _ :: _ :: _ :: _ :: _ :: _ :: _ :: (lexemes (allPieces zero) ++
    .word Keyword.default.word :: .punctuator .colon :: (lexemes (allPieces others ++ _) ++ ls))) := hfaces
  rw [lexemes_body, lexemes_allPieces, lexemes_allPieces] at hfaces
  rw [expandStatement_switch (hfaces.kind.trans (Keyword.kind_word .switch))]
  have hplain : s.detached.context.Plain := hs.sloppy.toPlain
  refine (concluded_of_decided rfl (switchStatement_decided (fun tree : Tree => lexemes tree.pieces)
    (fun tree => tree.valid c.switching = true) zero others hplain (faces_detached hfaces)
    (fun tree htree t ms ht => ?_) fun tree _ => ?_)).iff ?_
  · have hdecided : TreeDecided tree := htree.elim (hzero tree) (hothers tree)
    exact hdecided.item ((hs.detached.switching rfl).of_agrees ht.toAgrees) ht.attachedLabels ht.faces
  · obtain ⟨first, rest, hfirst, hgoes, _⟩ := tree_first tree
    exact ⟨first, rest, hfirst, hgoes⟩
  · rw [← allValid_iff, ← allValid_iff, ← Bool.and_eq_true]
    rfl

theorem tree_tryFinally {body final : List Tree} (hbody : ∀ tree ∈ body, TreeDecided tree)
    (hfinal : ∀ tree ∈ final, TreeDecided tree) : TreeDecided (.tryFinally body final) := by
  refine .of_expand fun n s c ls hs hfaces => ?_
  have hfaces : s.Faces (.word Keyword.try.word :: .punctuator .openBrace :: (lexemes (allPieces body ++ _) ++ ls)) :=
    hfaces
  rw [lexemes_body] at hfaces
  have hfaces : s.Faces (_ :: _ :: (lexemes (allPieces body) ++ .punctuator .closeBrace :: .word Keyword.finally.word ::
    .punctuator .openBrace :: (lexemes (allPieces final ++ _) ++ ls))) := hfaces
  rw [lexemes_body] at hfaces
  rw [expandStatement_try (hfaces.kind.trans (Keyword.kind_word .try))]
  have hlist (ss : List Tree) (hss : ∀ tree ∈ ss, TreeDecided tree) (t : State) (ms : List Lexeme)
      (ht : s.detached.Reaches t (lexemes (allPieces ss) ++ .punctuator .closeBrace :: ms)) :
      Decided t (allValid c.detached ss = true) (.punctuator .closeBrace :: ms) (fun _ => True)
        (statementList (derive n) false t) :=
    trees_decided hss (hs.detached.of_agrees ht.toAgrees) ht.attachedLabels rfl ht.faces
  refine (concluded_of_decided rfl (tryStatement_decided (faces_detached hfaces) (fun t ht => hlist body hbody t _ ht)
    fun t ht => hlist final hfinal t ls ht)).iff ?_
  exact (iff_of_eq (Bool.and_eq_true _ _)).symm

theorem tree_break (label? : Option Variable) : TreeDecided (.break label?) := by
  refine .of_expand fun n s c ls hs hfaces => ?_
  rw [expandStatement_break (hfaces.kind.trans (Keyword.kind_word .break))]
  cases label? with
  | none =>
    refine (concluded_of_decided rfl (breakStatement_decided (faces_detached hfaces))).iff ?_
    rw [show s.detached.context.inBreakable = c.inBreakable from hs.inBreakable]
    rfl
  | some label =>
    refine (concluded_of_decided rfl (breakStatement_label (faces_detached hfaces))).iff ?_
    rw [show s.detached.labels.map Label.name = c.labels from hs.names]
    exact List.contains_iff_mem.symm

theorem tree_continue (label? : Option Variable) : TreeDecided (.continue label?) := by
  refine .of_expand fun n s c ls hs hfaces => ?_
  rw [expandStatement_continue (hfaces.kind.trans (Keyword.kind_word .continue))]
  cases label? with
  | none =>
    refine (concluded_of_decided rfl (continueStatement_decided (faces_detached hfaces))).iff ?_
    rw [show s.detached.context.inIteration = c.inLoop from hs.inLoop]
    rfl
  | some label =>
    refine (concluded_of_decided rfl (continueStatement_label (faces_detached hfaces))).iff ?_
    rw [continueError?_eq_none_iff hs.detached]
    exact List.contains_iff_mem.symm

theorem tree_labelled {label : Variable} {body : Tree} (h : TreeDecided body) :
    TreeDecided (.labelled label body) := by
  refine .of_expand fun n s c ls hs hfaces => ?_
  have hfaces : s.Faces (.word label.toWord :: .punctuator .colon :: (lexemes body.pieces ++ ls)) := hfaces
  rw [expandStatement_label hfaces]
  obtain ⟨first, rest, hfirst, _, hfunction, _⟩ := tree_first body
  have hdetached := faces_detached hfaces
  rw [hfirst] at hdetached
  refine (labelledStatement_concluded (v := body.valid (c.label label.name) = true) hdetached
    (hs.sloppy.forbids_sloppy _ _) hfunction fun t hnew hcontext hmodule hlabels hattached ht => ?_).iff ?_
  · have hnew : label.name ∉ c.labels := by
      rwa [show s.detached.labels.map Label.name = c.labels from hs.names] at hnew
    have ht : t.Faces (lexemes body.pieces ++ ls) := by
      rw [hfirst]
      exact ht
    refine (h n t _ ls ((hs.label hnew _ rfl).of_eq hcontext hmodule hlabels hattached) ht).imp fun _ _ _ hu => ?_
    exact ⟨hu.1.trans hmodule, hu.2⟩
  · rw [show s.detached.labels.map Label.name = c.labels from hs.names]
    simp [Tree.valid]

/-- Nothing outside of a function is around the statements of its body. -/
theorem trees_body {n : Nat} {context : Context} (hall : ∀ tree ∈ ss, TreeDecided tree) (hsloppy : context.Free false)
    (hloop : context.inIteration = false) (hbreakable : context.inBreakable = false) (hmodule : s.isModule = false) :
    BodyDecided s context (allValid {} ss = true) (lexemes (allPieces ss)) (.punctuator .closeBrace :: ls)
      (statementList (derive n) false) := by
  intro t hcontext hlabels hattached hmodule' ht
  subst hcontext
  exact trees_decided hall (.outermost hsloppy hloop hbreakable (hmodule'.trans hmodule) hlabels) hattached rfl ht

/-- Statements do not begin with a directive. -/
theorem trees_notString (hend : EndsList ls) (hs : s.Faces (lexemes (allPieces ss) ++ ls)) :
    s.token.isString = false := by
  refine isString_of_kind fun legacy => ?_
  rw [lexemes_allPieces] at hs
  cases ss with
  | nil =>
    cases ls with
    | nil => exact fun hkind => nomatch hkind.symm.trans hs
    | cons l ls => exact fun hkind => nomatch hkind.symm.trans (hs.kind.trans hend)
  | cons tree ss =>
    obtain ⟨first, rest, hfirst, _, _, hstring⟩ := tree_first tree
    rw [List.flatMap_cons, hfirst] at hs
    exact fun hkind => hstring legacy (hs.kind.symm.trans hkind)

theorem tree_function {arrow : Bool} (hall : ∀ tree ∈ ss, TreeDecided tree) : TreeDecided (.function arrow ss) := by
  refine .of_expand fun n s c ls hs hfaces => ?_
  rw [expandStatement_expression hfaces (.inl rfl)]
  have hplain : s.detached.context.Plain := hs.sloppy.toPlain
  refine concluded_of_decided rfl (Decided.iff (expressionStatement_decided (w := True) ?_
    fun e he => iff_of_true he trivial) (iff_of_eq (and_true (allValid {} ss = true))))
  cases arrow with
  | false =>
    have hfaces : s.detached.Faces (.punctuator .openParen :: .word Keyword.function.word :: .punctuator .openParen ::
      .punctuator .closeParen :: .punctuator .openBrace :: (lexemes (allPieces ss ++ _) ++ ls)) := faces_detached hfaces
    rw [lexemes_body] at hfaces
    refine wrapped_decided hplain (.inl rfl) hfaces (.inl (Keyword.kind_word .function))
      fun m t hcontext hmodule ht => ?_
    have hmodule : t.isModule = false := hmodule.trans hs.isModule
    have hstrict : t.context.strict = false := hcontext ▸ hs.sloppy.strict_eq
    rw [primary_function (ht.kind.trans (Keyword.kind_word .function))]
    refine .of_agrees (agrees_noted t)
      (Decided.imp (function_decided (faces_noted ht) (fun _ => trees_notString rfl) ?_)
      fun _ e he => he.none_iff.mpr rfl)
    rw [show t.noted.context.strict = false from hstrict, show t.noted.isModule = false from hmodule]
    exact trees_body hall (Context.ofFunction_free false) rfl rfl hmodule
  | true =>
    have hfaces : s.detached.Faces (.punctuator .openParen :: .punctuator .openParen :: .punctuator .closeParen ::
      .punctuator .arrow :: .punctuator .openBrace :: (lexemes (allPieces ss ++ _) ++ ls)) := faces_detached hfaces
    rw [lexemes_body] at hfaces
    refine wrapped_decided hplain (.inl rfl) hfaces (.inr (.inr (.inl rfl))) fun m t hcontext hmodule ht => ?_
    have hmodule : t.isModule = false := hmodule.trans hs.isModule
    rw [primary_openParen ht.kind]
    refine .of_agrees (agrees_noted t)
      (Decided.imp (emptyArrow_decided (faces_noted ht) (fun _ => trees_notString rfl) ?_)
      fun _ e he => he.none_iff.mpr rfl)
    have hsloppy : t.noted.context.Free false := by
      rw [show t.noted.context = s.context from hcontext]
      exact hs.sloppy
    exact trees_body hall hsloppy.ofArrow rfl rfl hmodule

end

mutual

/-- A statement is decided by its scope. -/
theorem tree_decided (tree : Tree) : TreeDecided tree := by
  cases tree with
  | empty => exact tree_empty
  | block body => exact tree_block (trees_all body)
  | labelled label body => exact tree_labelled (tree_decided body)
  | loop kind body => exact tree_loop (tree_decided body)
  | ifElse yes no => exact tree_ifElse (tree_decided yes) (tree_decided no)
  | switch zero others => exact tree_switch (trees_all zero) (trees_all others)
  | tryFinally body final => exact tree_tryFinally (trees_all body) (trees_all final)
  | «break» label? => exact tree_break label?
  | «continue» label? => exact tree_continue label?
  | function arrow body => exact tree_function (trees_all body)

theorem trees_all (ss : List Tree) : ∀ tree ∈ ss, TreeDecided tree := by
  cases ss with
  | nil => exact fun tree htree => nomatch htree
  | cons s ss => exact List.forall_mem_cons.mpr ⟨tree_decided s, trees_all ss⟩

end

end Grammar

/-- A program of labels, loops, functions and jumps is accepted just if no label is around itself in its function and
every jump has somewhere to go there. -/
theorem jumps_accepted_iff (ss : List Tree) (limit : Nat)
    (hdeep : ∀ r, checkBuffer ⟨.script, limit⟩ (Utf8.encode (printed (allPieces ss))) ≠ .tooDeep r) :
    checkBuffer ⟨.script, limit⟩ (Utf8.encode (printed (allPieces ss))) = .ok ↔ allValid {} ss = true := by
  have hsound : Sound (allPieces ss) = true := by
    have hlast := sound_trees ss []
    rwa [List.append_nil] at hlast
  refine Grammar.checkBuffer_printed hsound hdeep fun s hs => ?_
  have hend : Grammar.EndsList [] := trivial
  have hfaces : s.Faces (lexemes (allPieces ss) ++ []) := by
    rw [List.append_nil]
    exact hs.faces
  refine Grammar.program_concluded (Grammar.directives_sloppy hs (Grammar.trees_notString hend hfaces)) fun t ht => ?_
  have htracks : Grammar.Tracks t {} := by
    refine .outermost ?_ ?_ ?_ ht.isModule ht.labels
    · rw [ht.context]
      exact ⟨⟨rfl, rfl⟩, rfl, rfl, rfl, rfl⟩
    · rw [ht.context]
    · rw [ht.context]
  refine Grammar.trees_decided (Grammar.trees_all ss) htracks ht.attachedLabels hend ?_
  rw [List.append_nil]
  exact ht.faces

namespace Tree

/-- The names of the labels in the examples. -/
def outer : Variable := .plain ['k'] (by decide) (by decide)

def inner : Variable := .plain ['l'] (by decide) (by decide)

/-- A jump to a loop from the body of another one, by the first of the two labels it has. -/
def chain : List Tree :=
  [.labelled outer (.labelled inner (.loop .while (.loop .doWhile (.block [.continue (some outer)]))))]

end Tree

example : String.ofList (printed (allPieces Tree.chain)) = "k: l: while (0) do { continue k; } while (0); " := by
  decide +kernel

theorem jumps_accepted_iff_chain :
    (∀ r, checkBuffer ⟨.script, 64⟩ (Utf8.encode (printed (allPieces Tree.chain))) ≠ .tooDeep r) ∧
    checkBuffer ⟨.script, 64⟩ (Utf8.encode (printed (allPieces Tree.chain))) = .ok := by
  have hdeep : ∀ r, checkBuffer ⟨.script, 64⟩ (Utf8.encode (printed (allPieces Tree.chain))) ≠ .tooDeep r := by
    rw [show checkBuffer ⟨.script, 64⟩ (Utf8.encode (printed (allPieces Tree.chain))) = .ok by decide +kernel]
    nofun
  exact ⟨hdeep, (jumps_accepted_iff Tree.chain 64 hdeep).mpr (by decide +kernel)⟩

end EcmaCheck
