import Formulary.Expr.Parser
import Formulary.Proofs.Expr.Nodes
/-!
# The atoms of an expression

The atoms of an expression are its numbers, quoted texts and names, from left to right, the functions
that it calls included. Reading keeps them: an expression has the atoms of the tokens it was read from,
in order and with their spans (`atoms_of_parse`). For the machine this is one invariant: what is held on
the stack and what has just been reached together have the atoms of the tokens read so far
(`ParserState.atoms_step`).
-/

namespace Formulary

/-- Whether a token is a number, a quoted text or a name. -/
def Lexeme.isAtom (l : Lexeme) : Bool :=
  match l.token with
  | .mark _ => false
  | _ => true

namespace Expr

mutual

/-- The numbers, quoted texts and names of an expression, from left to right. -/
def atoms : Expr → List Lexeme
  | number s x => [⟨.number x, s⟩]
  | text s t => [⟨.text t, s⟩]
  | symbol s name => [⟨.name name, s⟩]
  | binary _ _ l r => l.atoms ++ r.atoms
  | unary _ _ e => e.atoms
  | conditional _ c y n => c.atoms ++ y.atoms ++ n.atoms
  | call _ f nameSpan args => ⟨.name f, nameSpan⟩ :: atomsOfAll args

/-- The atoms of the members of a list. -/
def atomsOfAll : List Expr → List Lexeme
  | [] => []
  | e :: es => e.atoms ++ atomsOfAll es

end

lemma atomsOfAll_eq_flatMap (es : List Expr) : atomsOfAll es = es.flatMap atoms := by
  induction es with
  | nil => rfl
  | cons e es ih => rw [atomsOfAll, ih, List.flatMap_cons]

lemma atomsOfAll_append (es es' : List Expr) :
    atomsOfAll (es ++ es') = atomsOfAll es ++ atomsOfAll es' := by
  simp [atomsOfAll_eq_flatMap]

/-- The atom that a node itself brings in. -/
def ownAtom? : Expr → Option Lexeme
  | number s x => some ⟨.number x, s⟩
  | text s t => some ⟨.text t, s⟩
  | symbol s name => some ⟨.name name, s⟩
  | call _ f nameSpan _ => some ⟨.name f, nameSpan⟩
  | binary .. | unary .. | conditional .. => none

/-- The atoms are those of the nodes in preorder. -/
theorem atoms_eq_filterMap (e : Expr) : e.atoms = e.nodes.filterMap ownAtom? := by
  induction e with
  | number s x => rfl
  | text s t => rfl
  | symbol s name => rfl
  | binary s op l r hl hr =>
    rw [atoms, nodes, List.filterMap_cons_none rfl, List.filterMap_append, hl, hr]
  | unary s op e he => rw [atoms, nodes, List.filterMap_cons_none rfl, he]
  | conditional s c y n hc hy hn =>
    rw [atoms, nodes, List.filterMap_cons_none rfl, List.filterMap_append, List.filterMap_append,
      hc, hy, hn]
  | call s f nameSpan args hargs =>
    have hown : (call s f nameSpan args).ownAtom? = some ⟨.name f, nameSpan⟩ := rfl
    rw [atoms, nodes, List.filterMap_cons_some hown, atomsOfAll_eq_flatMap, nodesOfAll_eq_flatMap,
      List.filterMap_flatMap, List.flatMap_def, List.flatMap_def, List.map_congr_left hargs]

lemma mem_atoms {e : Expr} {l : Lexeme} : l ∈ e.atoms ↔ ∃ n ∈ e.nodes, n.ownAtom? = some l := by
  rw [atoms_eq_filterMap, List.mem_filterMap]

lemma mem_atoms_of_symbol {e : Expr} {s : Span} {name : String} (h : symbol s name ∈ e.nodes) :
    (⟨.name name, s⟩ : Lexeme) ∈ e.atoms :=
  mem_atoms.2 ⟨_, h, rfl⟩

lemma text_mem_nodes_of_atoms {e : Expr} {s : Span} {t : String}
    (h : (⟨.text t, s⟩ : Lexeme) ∈ e.atoms) : text s t ∈ e.nodes := by
  obtain ⟨n, hn, hatom⟩ := mem_atoms.1 h
  cases n <;> simp [ownAtom?] at hatom
  obtain ⟨rfl, rfl⟩ := hatom
  exact hn

/-- A name among the atoms is that of a symbol or of a function that is called. -/
lemma symbol_or_call_of_mem_atoms {e : Expr} {s : Span} {name : String}
    (h : (⟨.name name, s⟩ : Lexeme) ∈ e.atoms) :
    symbol s name ∈ e.nodes ∨ ∃ sp args, call sp name s args ∈ e.nodes := by
  obtain ⟨n, hn, hatom⟩ := mem_atoms.1 h
  cases n <;> simp [ownAtom?] at hatom
  · obtain ⟨rfl, rfl⟩ := hatom
    exact .inl hn
  · obtain ⟨rfl, rfl⟩ := hatom
    exact .inr ⟨_, _, hn⟩

end Expr

/-! ## The atoms that the machine holds -/

/-- The atoms that a frame holds. -/
def Frame.atoms : Frame → List Lexeme
  | left p _ => p.expr.atoms
  | before .. | group _ => []
  | call f nameSpan args => ⟨.name f, nameSpan⟩ :: Expr.atomsOfAll args.reverse
  | yes c => c.expr.atoms
  | no c y => c.expr.atoms ++ y.atoms

/-- The atoms that a stack holds, those of the frame on top last. -/
def stackAtoms : List Frame → List Lexeme
  | [] => []
  | f :: stack => stackAtoms stack ++ f.atoms

/-- The atoms of what has just been reached. -/
def Reached.atoms : Reached → List Lexeme
  | gap => []
  | name s span => [⟨.name s, span⟩]
  | operand p => p.expr.atoms

/-- The atoms that a state holds. -/
def ParserState.atoms (s : ParserState) : List Lexeme :=
  stackAtoms s.stack ++ s.reached.atoms

/-- Closing frames loses no atom. -/
lemma atoms_close (level : Nat) (stack : List Frame) (p : Phrase) :
    stackAtoms (close level stack p).1 ++ (close level stack p).2.expr.atoms =
      stackAtoms stack ++ p.expr.atoms := by
  fun_induction close level stack p with
  | case1 p l op stack h ih =>
    rw [ih]
    simp [stackAtoms, Frame.atoms, Phrase.binary, Expr.atoms]
  | case3 p start op stack h ih =>
    rw [ih]
    simp [stackAtoms, Frame.atoms, Phrase.before, Expr.atoms]
  | case5 p c y stack h ih =>
    rw [ih]
    simp [stackAtoms, Frame.atoms, Phrase.conditional, Expr.atoms]
  | _ => rfl

namespace ParserState

lemma atoms_close_eq {level : Nat} {stack stack' : List Frame} {p p' : Phrase}
    (h : close level stack p = (stack', p')) :
    stackAtoms stack' ++ p'.expr.atoms = stackAtoms stack ++ p.expr.atoms := by
  have := atoms_close level stack p
  rwa [h] at this

lemma atoms_stepGap {stack : List Frame} {l : Lexeme} {s : ParserState}
    (h : stepGap stack l = some s) : s.atoms = stackAtoms stack ++ [l].filter Lexeme.isAtom := by
  obtain ⟨token, span⟩ := l
  cases token with
  | number x =>
    obtain rfl := Option.some.inj h
    rfl
  | text t =>
    obtain rfl := Option.some.inj h
    rfl
  | name n =>
    obtain rfl := Option.some.inj h
    rfl
  | mark m =>
    have hskip : [(⟨.mark m, span⟩ : Lexeme)].filter Lexeme.isAtom = [] := rfl
    rw [hskip, List.append_nil]
    unfold stepGap at h
    -- of the tokens that are no marks, then `(`, `)` and the prefixes
    split at h
    · rename_i htoken
      exact absurd htoken (by simp)
    · rename_i htoken
      exact absurd htoken (by simp)
    · rename_i htoken
      exact absurd htoken (by simp)
    · obtain rfl := Option.some.inj h
      simp [atoms, stackAtoms, Frame.atoms, Reached.atoms]
    · split at h
      · obtain rfl := Option.some.inj h
        simp [atoms, stackAtoms, Frame.atoms, Reached.atoms, Phrase.call, Expr.atoms]
      · exact absurd h (by simp)
    · obtain ⟨op, -, rfl⟩ := Option.map_eq_some_iff.1 h
      simp [atoms, stackAtoms, Frame.atoms, Reached.atoms]

lemma atoms_stepOperand {stack : List Frame} {p : Phrase} {span : Span} {m : Mark} {s : ParserState}
    (h : stepOperand stack p span m = some s) : s.atoms = stackAtoms stack ++ p.expr.atoms := by
  unfold stepOperand at h
  -- `!`, `?`, `:`, `,`, `)` and the operators; all but the first close frames before they go on
  split at h
  · obtain rfl := Option.some.inj h
    rfl
  · obtain rfl := Option.some.inj h
    have := atoms_close 1 stack p
    simpa [atoms, stackAtoms, Frame.atoms, Reached.atoms] using this
  · split at h
    · rename_i hclose
      obtain rfl := Option.some.inj h
      have := atoms_close_eq hclose
      simpa [atoms, stackAtoms, Frame.atoms, Reached.atoms] using this
    · exact absurd h (by simp)
  · split at h
    · rename_i hclose
      obtain rfl := Option.some.inj h
      have := atoms_close_eq hclose
      simpa [atoms, stackAtoms, Frame.atoms, Reached.atoms, Expr.atomsOfAll_append,
        Expr.atomsOfAll] using this
    · exact absurd h (by simp)
  · split at h
    · rename_i hclose
      obtain rfl := Option.some.inj h
      have := atoms_close_eq hclose
      simpa [atoms, stackAtoms, Frame.atoms, Reached.atoms] using this
    · rename_i hclose
      obtain rfl := Option.some.inj h
      have := atoms_close_eq hclose
      simpa [atoms, stackAtoms, Frame.atoms, Reached.atoms, Phrase.call, Expr.atoms,
        Expr.atomsOfAll_append, Expr.atomsOfAll] using this
    · exact absurd h (by simp)
  · obtain ⟨op, -, rfl⟩ := Option.map_eq_some_iff.1 h
    have := atoms_close op.closes stack p
    simpa [atoms, stackAtoms, Frame.atoms, Reached.atoms] using this

/-- Reading a token adds its atom, if it has one. -/
theorem atoms_step {s s' : ParserState} {l : Lexeme} (h : s.step l = some s') :
    s'.atoms = s.atoms ++ [l].filter Lexeme.isAtom := by
  obtain ⟨stack, reached⟩ := s
  obtain ⟨token, span⟩ := l
  rw [step] at h
  -- a name becomes the function of a call, or else an operand, with the mark after it
  split at h
  · rename_i hreached
    obtain rfl : reached = .gap := hreached
    simpa [atoms, Reached.atoms] using atoms_stepGap h
  · rename_i f nameSpan hreached htoken
    obtain rfl : reached = .name f nameSpan := hreached
    obtain rfl : token = .mark .leftParen := htoken
    obtain rfl := Option.some.inj h
    simp [atoms, stackAtoms, Frame.atoms, Reached.atoms, Expr.atomsOfAll, Lexeme.isAtom]
  · rename_i f nameSpan m _ hreached htoken
    obtain rfl : reached = .name f nameSpan := hreached
    obtain rfl : token = .mark m := htoken
    simpa [atoms, Reached.atoms, Expr.atoms, Lexeme.isAtom] using atoms_stepOperand h
  · rename_i p m hreached htoken
    obtain rfl : reached = .operand p := hreached
    obtain rfl : token = .mark m := htoken
    simpa [atoms, Reached.atoms, Lexeme.isAtom] using atoms_stepOperand h
  · exact absurd h (by simp)

lemma atoms_result {s : ParserState} {e : Expr} (h : s.result? = some e) : e.atoms = s.atoms := by
  obtain ⟨stack, reached⟩ := s
  have hphrase : ∀ p, reached.phrase? = some p → p.expr.atoms = reached.atoms := by
    intro p hp
    cases reached with
    | gap => exact absurd hp (by simp [Reached.phrase?])
    | name n span =>
      obtain rfl := Option.some.inj hp
      rfl
    | operand q =>
      obtain rfl := Option.some.inj hp
      rfl
  rw [result?] at h
  split at h
  · exact absurd h (by simp)
  · rename_i p hp
    split at h
    · rename_i q hclose
      obtain rfl := Option.some.inj h
      have := atoms_close_eq hclose
      rw [hphrase p hp] at this
      exact this
    · exact absurd h (by simp)

lemma atoms_run {s : ParserState} {position : Nat} {ls : List Lexeme} {e : Expr}
    (h : s.run position ls = .ok e) : e.atoms = s.atoms ++ ls.filter Lexeme.isAtom := by
  -- what has been read stays in the state, so the state is what the induction generalizes
  induction ls generalizing s position with
  | nil =>
    rw [run] at h
    split at h
    · rename_i e' hresult
      obtain rfl := Except.ok.inj h
      rw [atoms_result hresult, List.filter_nil, List.append_nil]
    · exact absurd h (by simp)
  | cons l ls ih =>
    rw [run] at h
    split at h
    · rename_i s' hstep
      rw [ih h, atoms_step hstep, List.append_assoc, ← List.filter_append, List.singleton_append]
    · exact absurd h (by simp)

end ParserState

/-- **An expression has the atoms of the tokens it was read from.** -/
theorem atoms_of_parse {ls : List Lexeme} {e : Expr} (h : parse ls = .ok e) :
    e.atoms = ls.filter Lexeme.isAtom :=
  ParserState.atoms_run h

end Formulary
