import Formulary.Proofs.Expr.Nodes
import Formulary.Proofs.Result
import Formulary.Proofs.Scope
import Formulary.Tree
import Mathlib.Data.List.Forall2
/-!
# The variables of trees

The names that are listed for a tree without reading it are those that its expression mentions, in the
same order (`mentions_of_toExpr`). Its other symbols are constants (`symbol_of_toExpr`).
-/

namespace Formulary.Tree

open Result

/-! ## Induction -/

mutual

/-- Induction over the trees that have an expression: numbers, names and operations. -/
@[elab_as_elim]
theorem toExpr_induct {motive : Json → Expr → Prop}
    (number : ∀ n, motive (.number n) (.number origin n.toFloat))
    (leaf : ∀ name e, leaf name = .ok e → motive (.string name) e)
    (operation : ∀ head operands es e, List.Forall₂ motive operands es →
      operation head es = .ok e → motive (.array (.string head :: operands)) e) :
    {t : Json} → {e : Expr} → toExpr t = .ok e → motive t e
  | .number n, e, he => by
    rw [toExpr] at he
    obtain rfl := Except.ok.inj he
    exact number n
  | .string name, e, he => by
    rw [toExpr] at he
    exact leaf name e he
  | .array (.string head :: operands), e, he => by
    rw [toExpr] at he
    obtain ⟨es, hes, he⟩ := bind_eq_ok.1 he
    exact operation head operands es e (toExprs_induct number leaf operation hes) he
  -- whatever else a value is, it has no expression
  | .array [], e, he | .array (.null :: _), e, he | .array (.bool _ :: _), e, he
  | .array (.number _ :: _), e, he | .array (.array _ :: _), e, he
  | .array (.object _ :: _), e, he => by
    rw [toExpr] at he
    · exact absurd he (by simp)
    · simp
  | .null, e, he | .bool _, e, he | .object _, e, he => by
    rw [toExpr] at he
    all_goals first
    | exact absurd he (by simp)
    | simp

theorem toExprs_induct {motive : Json → Expr → Prop}
    (number : ∀ n, motive (.number n) (.number origin n.toFloat))
    (leaf : ∀ name e, leaf name = .ok e → motive (.string name) e)
    (operation : ∀ head operands es e, List.Forall₂ motive operands es →
      operation head es = .ok e → motive (.array (.string head :: operands)) e) :
    {ts : List Json} → {es : List Expr} → toExprs ts = .ok es → List.Forall₂ motive ts es
  | [], es, hes => by
    rw [toExprs] at hes
    obtain rfl := Except.ok.inj hes
    exact .nil
  | t :: ts, es, hes => by
    rw [toExprs] at hes
    obtain ⟨e, he, hes⟩ := bind_eq_ok.1 hes
    obtain ⟨es', hes', hes⟩ := bind_eq_ok.1 hes
    obtain rfl := Except.ok.inj hes
    exact .cons (toExpr_induct number leaf operation he)
      (toExprs_induct number leaf operation hes')

end

/-! ## Mentions -/

lemma mentions_foldl (op : BinaryOp) (e : Expr) (es : List Expr) :
    (es.foldl (Expr.binary origin op) e).mentions = e.mentions ++ es.flatMap Expr.mentions := by
  induction es generalizing e with
  | nil => simp
  | cons d es ih => simp [ih]

/-- The operands of a head keep what they mention, in order. -/
lemma mentions_apply {h : Head} {es : List Expr} {e : Expr} (he : h.apply es = .ok e) :
    e.mentions = es.flatMap Expr.mentions := by
  unfold Head.apply at he
  split at he <;> cases he <;> simp [mentions_foldl]

lemma mentions_operation {head : String} {es : List Expr} {e : Expr}
    (he : operation head es = .ok e) : e.mentions = es.flatMap Expr.mentions := by
  rw [operation] at he
  split at he
  · exact absurd he (by simp)
  · exact mentions_apply (mapError_eq_ok.1 he)

lemma variableOf?_of_constants {name word : String} (h : constants.lookup name = some word) :
    variableOf? word = none := by
  have hconstants : ∀ c ∈ constants, variableOf? c.2 = none := by decide
  exact hconstants _ (mem_of_lookup h)

lemma mentions_leaf {name : String} {e : Expr} (he : leaf name = .ok e) :
    e.mentions = names (.string name) := by
  rw [leaf] at he
  split at he
  · rename_i word hword
    obtain rfl := Except.ok.inj he
    simp [names, hword, variableOf?_of_constants hword]
  · rename_i hword
    split at he
    · rename_i hname
      obtain rfl := Except.ok.inj he
      simp [names, hword, hname]
    · exact absurd he (by simp)

lemma namesOfAll_eq_flatMap (ts : List Json) : namesOfAll ts = ts.flatMap names := by
  induction ts with
  | nil => rfl
  | cons t ts ih => rw [namesOfAll, ih, List.flatMap_cons]

/-- The variables that the expression of a tree mentions are the names that are listed for the tree. -/
theorem mentions_of_toExpr (t : Json) {e : Expr} (he : toExpr t = .ok e) : e.mentions = names t := by
  refine toExpr_induct ?number ?leaf ?operation he
  case number => exact fun n => rfl
  case leaf => exact fun name e hleaf => mentions_leaf hleaf
  case operation =>
    intro head operands es e hoperands hoperation
    rw [mentions_operation hoperation, names, namesOfAll_eq_flatMap]
    clear hoperation
    induction hoperands with
    | nil => rfl
    | cons hd _ ih => rw [List.flatMap_cons, List.flatMap_cons, hd, ih]

mutual

lemma isName_of_mem_names {name : String} : (t : Json) → name ∈ names t → isName name = true
  | .string text, h => by
    rw [names] at h
    split at h
    · rename_i hvariable
      obtain rfl := List.mem_singleton.1 h
      exact (Bool.and_eq_true_iff.1 hvariable).2
    · exact absurd h List.not_mem_nil
  | .array (_ :: operands), h => isName_of_mem_namesOfAll operands (by rwa [names] at h)
  | .array [], h | .null, h | .bool _, h | .number _, h | .object _, h => by simp [names] at h

lemma isName_of_mem_namesOfAll {name : String} :
    (ts : List Json) → name ∈ namesOfAll ts → isName name = true
  | [], h => absurd h List.not_mem_nil
  | t :: ts, h => by
    rw [namesOfAll] at h
    rcases List.mem_append.1 h with h | h
    · exact isName_of_mem_names t h
    · exact isName_of_mem_namesOfAll ts h

end

/-! ## Symbols -/

section
variable {s : Span} {name : String}

lemma exists_operand_of_symbol_foldl {op : BinaryOp} {e : Expr} {es : List Expr}
    (h : .symbol s name ∈ (es.foldl (Expr.binary origin op) e).nodes) :
    ∃ a ∈ e :: es, .symbol s name ∈ a.nodes := by
  induction es generalizing e with
  | nil => exact ⟨e, List.mem_cons_self, h⟩
  | cons d es ih =>
    obtain ⟨a, ha, hsymbol⟩ := ih h
    rcases List.mem_cons.1 ha with rfl | ha
    · rcases (Expr.mem_nodes_binary.1 hsymbol).resolve_left (by simp) with he | hd
      · exact ⟨e, by simp, he⟩
      · exact ⟨d, by simp, hd⟩
    · exact ⟨a, by simp [ha], hsymbol⟩

/-- A head brings no symbol with it. -/
lemma exists_operand_of_symbol_apply {h : Head} {es : List Expr} {e : Expr} (he : h.apply es = .ok e)
    (hs : .symbol s name ∈ e.nodes) : ∃ a ∈ es, .symbol s name ∈ a.nodes := by
  unfold Head.apply at he
  split at he <;> cases he
  all_goals first
  | exact exists_operand_of_symbol_foldl hs
  | simpa using hs

lemma exists_operand_of_symbol {head : String} {es : List Expr} {e : Expr}
    (he : operation head es = .ok e) (hs : .symbol s name ∈ e.nodes) :
    ∃ a ∈ es, .symbol s name ∈ a.nodes := by
  rw [operation] at he
  split at he
  · exact absurd he (by simp)
  · exact exists_operand_of_symbol_apply (mapError_eq_ok.1 he) hs

/-- A symbol in the expression of a tree is a constant or stands for a variable. -/
theorem symbol_of_toExpr (t : Json) {e : Expr} (he : toExpr t = .ok e)
    (hs : .symbol s name ∈ e.nodes) :
    (∃ entry ∈ constants, name = entry.2) ∨ ∃ v, name = identifierOf v := by
  revert hs
  refine toExpr_induct ?number ?leaf ?operation he
  case number => exact fun n hs => absurd hs (by simp)
  case leaf =>
    intro text e hleaf hs
    rw [leaf] at hleaf
    split at hleaf
    · rename_i word hword
      obtain rfl := Except.ok.inj hleaf
      obtain ⟨-, rfl⟩ := Expr.symbol.inj (Expr.mem_nodes_symbol.1 hs)
      exact .inl ⟨_, mem_of_lookup hword, rfl⟩
    · split at hleaf
      · obtain rfl := Except.ok.inj hleaf
        obtain ⟨-, rfl⟩ := Expr.symbol.inj (Expr.mem_nodes_symbol.1 hs)
        exact .inr ⟨text, rfl⟩
      · exact absurd hleaf (by simp)
  case operation =>
    intro head operands es e hoperands hoperation hs
    obtain ⟨a, ha, hsymbol⟩ := exists_operand_of_symbol hoperation hs
    obtain ⟨hlength, hmotive⟩ := List.forall₂_iff_get.1 hoperands
    obtain ⟨i, rfl⟩ := List.mem_iff_get.1 ha
    exact hmotive i (by omega) i.2 hsymbol

end

end Formulary.Tree
