import Formulary.Proofs.Expr.Reading
/-!
# Where nodes and faults come from

Each node of an expression is written by a part of the tokens that write the expression, and its span is
the extent of this part; for a call it goes from the name of the function to the closing parenthesis
(`Derives.exists_origin`). What the parser rejects is a token or the place after the last one
(`ParserState.fault_of_run`).
-/

namespace Formulary

/-! ## Nodes -/

/-- Tokens are those that a node is written by, without parentheses around it. -/
structure Expr.Origin (n : Expr) (ms : List Lexeme) : Prop where
  ne_nil : ms ≠ []
  span : n.span = extentOf ms
  call : ∀ s f nameSpan args, n = .call s f nameSpan args → ∃ opening inner closing,
    closing.token = .mark .rightParen ∧ ms = ⟨.name f, nameSpan⟩ :: opening :: (inner ++ [closing])

lemma infix_group {ms ls : List Lexeme} {opening closing : Lexeme} (h : ms <:+: ls) :
    ms <:+: opening :: (ls ++ [closing]) :=
  h.trans ⟨[opening], [closing], by simp⟩

mutual

/-- Each node of an expression is written by a part of the tokens. -/
theorem Derives.exists_phrase : {c : Category} → {ls : List Lexeme} → {e : Expr} → Derives c ls e →
    ∀ n ∈ e.nodes, ∃ d ms, ms <:+: ls ∧ Derives d ms n
  | _, _, _, .number s x, n, hn => by
    obtain rfl := Expr.mem_nodes_number.1 hn
    exact ⟨_, _, List.infix_rfl, .number s x⟩
  | _, _, _, .text s t, n, hn => by
    obtain rfl := Expr.mem_nodes_text.1 hn
    exact ⟨_, _, List.infix_rfl, .text s t⟩
  | _, _, _, .symbol s name, n, hn => by
    obtain rfl := Expr.mem_nodes_symbol.1 hn
    exact ⟨_, _, List.infix_rfl, .symbol s name⟩
  | _, _, _, @Derives.conditional cs ys ns question colon _ _ _ hc hquestion hy hcolon hno, n, hn => by
    rcases Expr.mem_nodes_conditional.1 hn with rfl | hn | hn | hn
    · exact ⟨_, _, List.infix_rfl, .conditional hc hquestion hy hcolon hno⟩
    · obtain ⟨d, ms, hms, hphrase⟩ := hc.exists_phrase n hn
      exact ⟨d, ms, hms.trans (List.prefix_append ..).isInfix, hphrase⟩
    · obtain ⟨d, ms, hms, hphrase⟩ := hy.exists_phrase n hn
      exact ⟨d, ms, hms.trans ⟨cs ++ [question], colon :: ns, by simp⟩, hphrase⟩
    · obtain ⟨d, ms, hms, hphrase⟩ := hno.exists_phrase n hn
      exact ⟨d, ms, hms.trans ⟨cs ++ question :: (ys ++ [colon]), [], by simp⟩, hphrase⟩
  | _, _, _, @Derives.binary _ ls _ sign _ _ hl hsign hr, n, hn => by
    rcases Expr.mem_nodes_binary.1 hn with rfl | hn | hn
    · exact ⟨_, _, List.infix_rfl, .binary hl hsign hr⟩
    · obtain ⟨d, ms, hms, hphrase⟩ := hl.exists_phrase n hn
      exact ⟨d, ms, hms.trans (List.prefix_append ..).isInfix, hphrase⟩
    · obtain ⟨d, ms, hms, hphrase⟩ := hr.exists_phrase n hn
      exact ⟨d, ms, hms.trans ⟨ls ++ [sign], [], by simp⟩, hphrase⟩
  | _, _, _, .unary hop hsign he, n, hn => by
    rcases Expr.mem_nodes_unary.1 hn with rfl | hn
    · exact ⟨_, _, List.infix_rfl, .unary hop hsign he⟩
    · obtain ⟨d, ms, hms, hphrase⟩ := he.exists_phrase n hn
      exact ⟨d, ms, hms.trans (List.suffix_cons ..).isInfix, hphrase⟩
  | _, _, _, .factorial he hsign, n, hn => by
    rcases Expr.mem_nodes_unary.1 hn with rfl | hn
    · exact ⟨_, _, List.infix_rfl, .factorial he hsign⟩
    · obtain ⟨d, ms, hms, hphrase⟩ := he.exists_phrase n hn
      exact ⟨d, ms, hms.trans (List.prefix_append ..).isInfix, hphrase⟩
  | _, _, _, @Derives.call f s opening closing _ _ hopening hargs hclosing, n, hn => by
    rcases Expr.mem_nodes_call.1 hn with rfl | ⟨a, ha, hn⟩
    · exact ⟨_, _, List.infix_rfl, .call hopening hargs hclosing⟩
    · obtain ⟨d, ms, hms, hphrase⟩ := hargs.exists_phrase a ha n hn
      exact ⟨d, ms, hms.trans ⟨[⟨.name f, s⟩, opening], [closing], by simp⟩, hphrase⟩
  | _, _, _, .group _ he _, n, hn => by
    obtain ⟨d, ms, hms, hphrase⟩ := he.exists_phrase n hn
    exact ⟨d, ms, infix_group hms, hphrase⟩
  | _, _, _, .tighter _ h, n, hn => h.exists_phrase n hn

theorem DerivesArguments.exists_phrase : {ls : List Lexeme} → {args : List Expr} →
    DerivesArguments ls args → ∀ a ∈ args, ∀ n ∈ a.nodes, ∃ d ms, ms <:+: ls ∧ Derives d ms n
  | _, _, .nil, a, ha, n, hn => absurd ha List.not_mem_nil
  | _, _, .last he, a, ha, n, hn => he.exists_phrase n (List.mem_singleton.1 ha ▸ hn)
  | _, _, @DerivesArguments.cons ls _ comma _ _ he _ hrest, a, ha, n, hn => by
    rcases List.mem_cons.1 ha with ha | ha
    · obtain ⟨d, ms, hms, hphrase⟩ := he.exists_phrase n (ha ▸ hn)
      exact ⟨d, ms, hms.trans (List.prefix_append ..).isInfix, hphrase⟩
    · obtain ⟨d, ms, hms, hphrase⟩ := hrest.exists_phrase a ha n hn
      exact ⟨d, ms, hms.trans ⟨ls ++ [comma], [], by simp⟩, hphrase⟩

end

/-- Of the tokens that write an expression, those between its parentheses write it too, and its span is
their extent. -/
theorem Derives.exists_own : {c : Category} → {ls : List Lexeme} → {e : Expr} → Derives c ls e →
    ∃ d ms, ms <:+: ls ∧ Derives d ms e ∧ e.Origin ms
  | _, _, _, .number s x => ⟨_, _, List.infix_rfl, .number s x, by simp, rfl, by simp⟩
  | _, _, _, .text s t => ⟨_, _, List.infix_rfl, .text s t, by simp, rfl, by simp⟩
  | _, _, _, .symbol s name => ⟨_, _, List.infix_rfl, .symbol s name, by simp, rfl, by simp⟩
  | _, _, _, .conditional hc hquestion hy hcolon hn =>
    ⟨_, _, List.infix_rfl, .conditional hc hquestion hy hcolon hn, by simp, rfl, by simp⟩
  | _, _, _, .binary hl hsign hr =>
    ⟨_, _, List.infix_rfl, .binary hl hsign hr, by simp, rfl, by simp⟩
  | _, _, _, .unary hop hsign he =>
    ⟨_, _, List.infix_rfl, .unary hop hsign he, by simp, rfl, by simp⟩
  | _, _, _, .factorial he hsign =>
    ⟨_, _, List.infix_rfl, .factorial he hsign, by simp, rfl, by simp⟩
  | _, _, _, @Derives.call f s opening closing _ _ hopening hargs hclosing => by
    refine ⟨_, _, List.infix_rfl, .call hopening hargs hclosing, by simp, rfl, ?_⟩
    intro s' f' nameSpan' args' he
    obtain ⟨-, rfl, rfl, -⟩ := Expr.call.inj he
    exact ⟨opening, _, closing, hclosing, rfl⟩
  | _, _, _, .group _ he _ => by
    obtain ⟨d, ms, hms, hphrase, horigin⟩ := he.exists_own
    exact ⟨d, ms, infix_group hms, hphrase, horigin⟩
  | _, _, _, .tighter _ h => h.exists_own

/-- **Each node of an expression comes from a part of the tokens.** -/
theorem Derives.exists_origin {c : Category} {ls : List Lexeme} {e : Expr} (h : Derives c ls e) :
    ∀ n ∈ e.nodes, ∃ ms, ms <:+: ls ∧ n.Origin ms := by
  intro n hn
  obtain ⟨d, ms, hms, hphrase⟩ := h.exists_phrase n hn
  obtain ⟨-, own, hown, -, horigin⟩ := hphrase.exists_own
  exact ⟨own, hown.trans hms, horigin⟩

/-! ## Faults of reading -/

/-- What cannot be read is one of the tokens, or the end where the last one stops. -/
theorem ParserState.fault_of_run {s : ParserState} {position : Nat} {ls : List Lexeme} {fault : Fault}
    (h : s.run position ls = .error fault) :
    (∃ l ∈ ls, ∃ expected, fault = .unexpected l.token expected l.span) ∨
      ∃ expected, fault = .unexpectedEnd expected (.point (stopAfter position ls)) := by
  rcases run_eq_error h with ⟨before, l, after, t, rfl, -, -, rfl⟩ | ⟨t, -, -, rfl⟩
  · exact .inl ⟨l, by simp, _, rfl⟩
  · exact .inr ⟨_, rfl⟩

end Formulary
