import Formulary.Proofs.Expr.Faults
import Mathlib.Data.List.Basic
/-!
# Inlining a definition

`Expr.inline` puts an expression in the place of each symbol that stands for a variable. The result
mentions the variable only where the new expression does (`Expr.mentions_inline`), and it is resolved if
both are (`Expr.Resolved.inline`).

Where the variable is bound to what the new expression comes to, nothing else changes
(`Expr.evaluate_inline`): a symbol that evaluation comes to gives the same number, and an operand that
it passes over is passed over after the change, too, whatever stands there.
-/

namespace Formulary

open Result

namespace Expr

mutual

/-- The expression with another in the place of each symbol that stands for the variable. -/
def inline (e : Expr) (v : String) (d : Expr) : Expr :=
  match e with
  | number s x => number s x
  | text s t => text s t
  | symbol s name => if name = identifierOf v then d else symbol s name
  | binary s op l r => binary s op (l.inline v d) (r.inline v d)
  | unary s op x => unary s op (x.inline v d)
  | conditional s c y n => conditional s (c.inline v d) (y.inline v d) (n.inline v d)
  | call s f nameSpan args => call s f nameSpan (inlineAll args v d)

/-- The members of a list with an expression in the place of each symbol of the variable. -/
def inlineAll (es : List Expr) (v : String) (d : Expr) : List Expr :=
  match es with
  | [] => []
  | e :: es => e.inline v d :: inlineAll es v d

end

variable {v : String} {d e : Expr}

lemma inlineAll_eq_map (es : List Expr) : inlineAll es v d = es.map (·.inline v d) := by
  induction es with
  | nil => rfl
  | cons e es ih => rw [inlineAll, ih, List.map_cons]

lemma inline_symbol_self (s : Span) : (symbol s (identifierOf v)).inline v d = d := by
  rw [inline, if_pos rfl]

lemma inline_symbol_of_ne {s : Span} {name : String} (h : name ≠ identifierOf v) :
    (symbol s name).inline v d = symbol s name := by
  rw [inline, if_neg h]

/-! ## What stands in the result -/

/-- Each mention of the variable gives way to the mentions of the new expression. -/
theorem mentions_inline (e : Expr) :
    (e.inline v d).mentions = e.mentions.flatMap fun w => if w = v then d.mentions else [w] := by
  induction e with
  | number s x => rfl
  | text s t => rfl
  | symbol s name =>
    by_cases hname : name = identifierOf v
    · subst hname
      simp [inline_symbol_self]
    · rw [inline_symbol_of_ne hname, mentions_symbol]
      rcases hw : variableOf? name with _ | w
      · rfl
      · -- another identifier stands for another variable
        have hwv : w ≠ v := by
          rintro rfl
          exact hname (identifierOf_of_variableOf? hw).symm
        simp [hwv]
  | binary s op l r hl hr => simp [inline, hl, hr]
  | unary s op x hx => simp [inline, hx]
  | conditional s c y n hc hy hn => simp [inline, hc, hy, hn]
  | call s f nameSpan args hargs =>
    rw [inline, inlineAll_eq_map, mentions_call, mentions_call, List.flatMap_map, List.flatMap_assoc]
    exact List.flatMap_congr hargs

/-- A node of the result is one of the new expression or comes of a node that stood there before. -/
lemma mem_nodes_inline {n : Expr} (hn : n ∈ (e.inline v d).nodes) :
    n ∈ d.nodes ∨ ∃ m ∈ e.nodes, n = m.inline v d := by
  induction e with
  | number s x | text s t => exact .inr ⟨_, self_mem_nodes _, by simpa [inline] using hn⟩
  | symbol s name =>
    by_cases hname : name = identifierOf v
    · subst hname
      rw [inline_symbol_self] at hn
      exact .inl hn
    · refine .inr ⟨_, self_mem_nodes _, ?_⟩
      rw [inline_symbol_of_ne hname] at hn ⊢
      simpa using hn
  | binary s op l r hl hr =>
    rw [inline, mem_nodes_binary] at hn
    rcases hn with rfl | hn | hn
    · exact .inr ⟨binary s op l r, self_mem_nodes _, by rw [inline]⟩
    · exact (hl hn).imp_right fun ⟨m, hm, h⟩ => ⟨m, by simp [hm], h⟩
    · exact (hr hn).imp_right fun ⟨m, hm, h⟩ => ⟨m, by simp [hm], h⟩
  | unary s op x hx =>
    rw [inline, mem_nodes_unary] at hn
    rcases hn with rfl | hn
    · exact .inr ⟨unary s op x, self_mem_nodes _, by rw [inline]⟩
    · exact (hx hn).imp_right fun ⟨m, hm, h⟩ => ⟨m, by simp [hm], h⟩
  | conditional s c y o hc hy ho =>
    rw [inline, mem_nodes_conditional] at hn
    rcases hn with rfl | hn | hn | hn
    · exact .inr ⟨conditional s c y o, self_mem_nodes _, by rw [inline]⟩
    · exact (hc hn).imp_right fun ⟨m, hm, h⟩ => ⟨m, by simp [hm], h⟩
    · exact (hy hn).imp_right fun ⟨m, hm, h⟩ => ⟨m, by simp [hm], h⟩
    · exact (ho hn).imp_right fun ⟨m, hm, h⟩ => ⟨m, by simp [hm], h⟩
  | call s f nameSpan args hargs =>
    rw [inline, inlineAll_eq_map, mem_nodes_call] at hn
    rcases hn with rfl | ⟨a, ha, hn⟩
    · exact .inr ⟨call s f nameSpan args, self_mem_nodes _, by rw [inline, inlineAll_eq_map]⟩
    · obtain ⟨b, hb, rfl⟩ := List.mem_map.1 ha
      refine (hargs b hb hn).imp_right fun ⟨m, hm, h⟩ => ⟨m, ?_, h⟩
      exact mem_nodes_call.2 (.inr ⟨b, hb, hm⟩)

/-- A node that does not give way keeps its name and, if it is a call, the number of its arguments, so
there is with it what was wrong with it before. -/
lemma inline_eq_or_same_faults (m : Expr) : m.inline v d = d ∨
    ((m.inline v d).unknown? = m.unknown? ∧ (m.inline v d).quotedText? = m.quotedText? ∧
      (m.inline v d).callFault? = m.callFault?) := by
  cases m with
  | symbol s name =>
    by_cases hname : name = identifierOf v
    · subst hname
      exact .inl (inline_symbol_self s)
    · rw [inline_symbol_of_ne hname]
      exact .inr ⟨rfl, rfl, rfl⟩
  | call s f nameSpan args =>
    rw [inline, inlineAll_eq_map, callFault?, callFault?, List.length_map]
    exact .inr ⟨rfl, rfl, rfl⟩
  | _ =>
    rw [inline]
    exact .inr ⟨rfl, rfl, rfl⟩

/-- The result is resolved if both expressions are. -/
theorem Resolved.inline (he : e.Resolved) (hd : d.Resolved) : (e.inline v d).Resolved := by
  have hnode : ∀ n ∈ (e.inline v d).nodes, n ∈ d.nodes ∨ ∃ m ∈ e.nodes,
      n.unknown? = m.unknown? ∧ n.quotedText? = m.quotedText? ∧ n.callFault? = m.callFault? := by
    intro n hn
    rcases mem_nodes_inline hn with hn | ⟨m, hm, rfl⟩
    · exact .inl hn
    · rcases inline_eq_or_same_faults m with hm' | hsame
      · rw [hm']
        exact .inl (self_mem_nodes d)
      · exact .inr ⟨m, hm, hsame⟩
  constructor
  · intro n hn
    rcases hnode n hn with hn | ⟨m, hm, hunknown, -, -⟩
    · exact hd.known n hn
    · rw [hunknown, he.known m hm]
  · intro n hn
    rcases hnode n hn with hn | ⟨m, hm, -, hquoted, -⟩
    · exact hd.unquoted n hn
    · rw [hquoted, he.unquoted m hm]
  · intro n hn
    rcases hnode n hn with hn | ⟨m, hm, -, -, hcall⟩
    · exact hd.callable n hn
    · rw [hcall, he.callable m hm]

/-! ## What the result comes to -/

lemma values_map {scope : Scope} {f : Expr → Expr} {es : List Expr}
    (h : ∀ a ∈ es, (f a).value scope = a.value scope) :
    values scope (es.map f) = values scope es := by
  induction es with
  | nil => rfl
  | cons a es ih =>
    rw [List.map_cons, values, values, h a List.mem_cons_self,
      ih fun b hb => h b (List.mem_cons_of_mem a hb)]

/-- Inlining changes no value where the variable has the number that the new expression comes to. -/
theorem value_inline {scope : Scope} {x : Float} (hd : d.value scope = .ok x)
    (hv : scope.get? v = some x) (e : Expr) : (e.inline v d).value scope = e.value scope := by
  induction e with
  | number s x | text s t => rw [inline]
  | symbol s name =>
    by_cases hname : name = identifierOf v
    · subst hname
      rw [inline_symbol_self, hd, value, Scope.read, variableOf?_identifierOf]
      simp only [hv]
    · rw [inline_symbol_of_ne hname]
  | binary s op l r hl hr => rw [inline, value, value, hl, hr]
  | unary s op y hy => rw [inline, value, value, hy]
  | conditional s c y n hc hy hn => rw [inline, value, value, hc, hy, hn]
  | call s f nameSpan args hargs =>
    rw [inline, value, value, inlineAll_eq_map, List.length_map, values_map hargs]

/-- The same of what evaluation comes to, be it a number or a fault. -/
theorem evaluate_inline {scope : Scope} {x : Float} (hd : d.evaluate scope = .ok x)
    (hv : scope.get? v = some x) (e : Expr) : (e.inline v d).evaluate scope = e.evaluate scope := by
  rw [evaluate_eq_bind, evaluate_eq_bind, value_inline (evaluate_eq_ok_iff.1 hd).1 hv]

end Expr
end Formulary
