import Formulary.Proofs.Program.Run
import Formulary.Proofs.Session.Lines
import Formulary.Proofs.Template.Pieces
/-!
# Sessions as runs

A line that binds a name does in a session what a step with a source does in a run: it evaluates the
source in the scope built so far and binds the value (`Session.respond_line`). A run ends at the first
step that fails, while a session goes on; up to there the two build the same scope
(`Session.after_of_runSteps`, `Session.refuses_of_runSteps`, `Session.binds_all_iff_run`).
-/

namespace Formulary

open Result

/-- A name to bind, and the source of its value. -/
structure Binding where
  name : String
  source : String

namespace Binding

/-- The line that asks a session for a binding. -/
def line (b : Binding) : String :=
  b.name ++ " = " ++ b.source

/-- The step that computes a binding in a program. -/
def step (b : Binding) : Program.Step :=
  .of b.name (.source b.source)

/-- The name can be referred to, and the source is there and has no blanks around it. -/
structure WellFormed (b : Binding) : Prop where
  name : isName b.name = true
  source_ne : b.source ≠ ""
  source_trimmed : trim b.source = b.source

variable {b : Binding}

lemma WellFormed.isBlankText_source (hb : b.WellFormed) : isBlankText b.source = false :=
  isBlankText_eq_false_of_trimmed (trim_eq_self_iff.1 hb.source_trimmed) hb.source_ne

lemma toList_line (b : Binding) :
    b.line.toList = b.name.toList ++ ' ' :: '=' :: ' ' :: b.source.toList := by
  simp [line]

/-- A name is not empty, and none of its characters is blank. -/
lemma WellFormed.trimmed_name (hb : b.WellFormed) : b.name.toList ≠ [] ∧ Trimmed b.name.toList := by
  have hchars := isNameChar_of_mem_isNameText hb.name
  refine ⟨fun hnil => ?_, fun c hc => ?_, fun c hc => ?_⟩
  · have h := hb.name
    rw [isName, hnil] at h
    exact absurd h (by simp [isNameText])
  · exact isBlank_eq_false_of_isNameChar (hchars c (List.mem_of_mem_head? hc))
  · exact isBlank_eq_false_of_isNameChar (hchars c (List.mem_of_mem_getLast? hc))

/-- No blanks are around a line. -/
lemma WellFormed.trim_line (hb : b.WellFormed) : trim b.line = b.line := by
  obtain ⟨hne, hhead, -⟩ := hb.trimmed_name
  have hsource := trim_eq_self_iff.1 hb.source_trimmed
  have hsource_ne : b.source.toList ≠ [] := fun hnil =>
    hb.source_ne (String.toList_eq_nil_iff.1 hnil)
  refine trim_eq_self_iff.2 ⟨fun c hc => ?_, fun c hc => ?_⟩
  · rw [toList_line, List.head?_append_of_ne_nil _ hne] at hc
    exact hhead c hc
  · rw [toList_line, List.getLast?_append_of_ne_nil _ (by simp), List.getLast?_cons_cons,
      List.getLast?_cons_cons, List.getLast?_cons_of_ne_nil hsource_ne] at hc
    exact hsource.2 c hc

end Binding

/-! ## What a line asks for -/

namespace SessionLine

/-- A line with a name in front of its first equality sign and no other right behind it asks for a
binding, wherever else there are equality signs. -/
theorem ofText_line {b : Binding} (hb : b.WellFormed) : ofText b.line = .bind b.name b.source := by
  have hchars := isNameChar_of_mem_isNameText hb.name
  obtain ⟨hne, htrimmed⟩ := hb.trimmed_name
  have hsign : '=' ∉ b.name.toList ++ [' '] := by
    intro hmem
    rcases List.mem_append.1 hmem with hmem | hmem
    · exact absurd (hchars '=' hmem) (by decide)
    · exact absurd hmem (by decide)
  have hleft : trim (String.ofList (b.name.toList ++ [' '])) = b.name := by
    have h := trim_ofList [] [' '] (List.forall_mem_nil _) htrimmed hne
      (List.forall_mem_singleton.2 rfl)
    rwa [List.nil_append, String.ofList_toList] at h
  have hright : trim (String.ofList (' ' :: b.source.toList)) = b.source := by
    have h := trim_ofList [' '] [] (List.forall_mem_singleton.2 rfl)
      (trim_eq_self_iff.1 hb.source_trimmed)
      (fun hnil => hb.source_ne (String.toList_eq_nil_iff.1 hnil)) (by simp)
    rwa [List.append_nil, List.singleton_append, String.ofList_toList] at h
  refine ofText_eq_bind_iff.2
    ⟨_, ' ' :: b.source.toList, ?_, hsign, by simp, hleft, hb.name, hright⟩
  rw [hb.trim_line, Binding.toList_line, List.append_assoc]
  rfl

end SessionLine

/-! ## One line and one step -/

/-- A source comes to a number in a session exactly if it does as the definition of a step. -/
lemma evaluateSource_eq_ok_iff {settings : Settings} {source : String} {scope : Scope} {x : Float} :
    evaluateSource settings source scope = .ok x ↔
      (Definition.source source).evaluate settings.lenient scope = .ok x := by
  rw [Definition.evaluate_eq_ok_iff, evaluateSource]
  change _ ↔ ∃ f, Formula.ofSource settings source = .ok f ∧ f.evaluate scope = .ok x
  rcases Formula.ofSource settings source with fault | f <;> simp

namespace Session

/-- A session that answers the line of a binding by binding its name to a number. -/
def Binds (s : Session) (b : Binding) : Prop :=
  ∃ x, s.respond b.line = ({ s with scope := s.scope.insert b.name x }, .say [bindingText b.name x])

/-- A session that answers the line of a binding by a fault, and stays as it is. -/
def Refuses (s : Session) (b : Binding) : Prop :=
  ∃ fault, s.respond b.line = (s, .fail fault)

/-- A session after lines, or after the one with which it ends. -/
def after (s : Session) : List String → Session
  | [] => s
  | line :: lines => if (s.respond line).2.ends then (s.respond line).1
      else (s.respond line).1.after lines

variable {s : Session} {b : Binding}

lemma respond_line (hb : b.WellFormed) : s.respond b.line = s.answer (.bind b.name b.source) := by
  rw [respond, SessionLine.ofText_line hb]

/-- The line of a binding does in a session what its step does in a run. -/
theorem respond_line_of_evaluate (hb : b.WellFormed) {value : Option Float}
    (h : b.step.evaluate s.settings.lenient s.scope = .ok value) :
    ∃ x, value = some x ∧ s.respond b.line =
      ({ s with scope := b.step.extend s.scope value }, .say [bindingText b.name x]) := by
  obtain ⟨d, hd, hcase⟩ := Program.Step.evaluate_eq_ok_iff.1 h
  obtain rfl : .source b.source = d := Option.some.inj hd
  rcases hcase with ⟨hblank, -⟩ | ⟨-, x, hx, rfl⟩
  · have hfilled : isBlankText b.source = true := hblank
    rw [hb.isBlankText_source] at hfilled
    exact absurd hfilled (by simp)
  · refine ⟨x, rfl, ?_⟩
    rw [respond_line hb, answer]
    simp only [evaluateSource_eq_ok_iff.2 hx]
    rfl

theorem refuses_of_evaluate (hb : b.WellFormed) {cause : Fault}
    (h : b.step.evaluate s.settings.lenient s.scope = .error cause) : s.Refuses b := by
  rcases hvalue : evaluateSource s.settings b.source s.scope with fault | x
  · refine ⟨fault, ?_⟩
    rw [respond_line hb, answer]
    simp only [hvalue]
  · have hstep : b.step.evaluate s.settings.lenient s.scope = .ok (some x) :=
      Program.Step.evaluate_eq_ok_iff.2
        ⟨_, rfl, .inr ⟨hb.isBlankText_source, x, evaluateSource_eq_ok_iff.1 hvalue, rfl⟩⟩
    rw [hstep] at h
    exact absurd h (by simp)

lemma not_refuses_of_binds (h : s.Binds b) : ¬ s.Refuses b := by
  obtain ⟨x, hx⟩ := h
  rintro ⟨fault, hfault⟩
  rw [hx] at hfault
  have hlines := congrArg (fun r => r.2.lines) hfault
  exact absurd hlines (by simp [Reply.say, Reply.fail])

/-! ## All lines and all steps -/

open Program (runSteps runSteps_cons_eq_ok_iff runSteps_cons_eq_error_iff)

lemma after_cons (hb : b.WellFormed) {bs : List Binding} {value : Option Float}
    (h : b.step.evaluate s.settings.lenient s.scope = .ok value) :
    s.after ((b :: bs).map Binding.line) =
      ({ s with scope := b.step.extend s.scope value } : Session).after (bs.map Binding.line) := by
  obtain ⟨x, -, hrespond⟩ := respond_line_of_evaluate hb h
  rw [List.map_cons, after, hrespond]
  rfl

lemma binds_of_evaluate (hb : b.WellFormed) {value : Option Float}
    (h : b.step.evaluate s.settings.lenient s.scope = .ok value) : s.Binds b := by
  obtain ⟨x, rfl, hrespond⟩ := respond_line_of_evaluate hb h
  exact ⟨x, hrespond⟩

/-- The session before the line of the binding at a position. -/
def before (s : Session) (bs : List Binding) (k : Nat) : Session :=
  s.after ((bs.take k).map Binding.line)

lemma before_succ (hb : b.WellFormed) {bs : List Binding} {value : Option Float} {k : Nat}
    (h : b.step.evaluate s.settings.lenient s.scope = .ok value) :
    s.before (b :: bs) (k + 1) =
      ({ s with scope := b.step.extend s.scope value } : Session).before bs k := by
  rw [before, List.take_succ_cons, after_cons hb h, before]

/-- Steps that all come to a number are lines that all bind their name, and the scopes at the end are
the same. -/
theorem after_of_runSteps {bs : List Binding} {index : Nat} {rs : List StepRecord} {final : Scope}
    (hbs : ∀ b ∈ bs, b.WellFormed)
    (h : runSteps s.settings.lenient index s.scope (bs.map Binding.step) = .ok (rs, final)) :
    (s.after (bs.map Binding.line)).scope = final ∧
      ∀ k b, bs[k]? = some b → (s.before bs k).Binds b := by
  induction bs generalizing s index rs with
  | nil =>
    obtain ⟨-, rfl⟩ := Prod.mk.inj (Except.ok.inj h)
    exact ⟨rfl, fun k b hb => absurd hb (by simp)⟩
  | cons b bs ih =>
    have hb := hbs b List.mem_cons_self
    obtain ⟨value, rest, hvalue, hrest, -⟩ := runSteps_cons_eq_ok_iff.1 h
    obtain ⟨hafter, hbinds⟩ :=
      ih (s := { s with scope := b.step.extend s.scope value })
        (fun b' hb' => hbs b' (List.mem_cons_of_mem b hb')) hrest
    refine ⟨by rw [after_cons hb hvalue, hafter], fun k b' hk => ?_⟩
    cases k with
    | zero =>
      obtain rfl : b = b' := by simpa using hk
      exact binds_of_evaluate hb hvalue
    | succ k =>
      rw [before_succ hb hvalue]
      exact hbinds k b' (by simpa using hk)

/-- Where the steps fail there is the first line that binds nothing, and the scopes built up to there are
the same. -/
theorem refuses_of_runSteps {bs : List Binding} {index : Nat} {e : RunFault}
    (hbs : ∀ b ∈ bs, b.WellFormed)
    (h : runSteps s.settings.lenient index s.scope (bs.map Binding.step) = .error e) :
    ∃ k b cause rs, bs[k]? = some b ∧ e = .failed (index + k) b.name cause ∧
      (∀ j < k, ∀ b', bs[j]? = some b' → (s.before bs j).Binds b') ∧ (s.before bs k).Refuses b ∧
      runSteps s.settings.lenient index s.scope ((bs.map Binding.step).take k) =
        .ok (rs, (s.before bs k).scope) := by
  induction bs generalizing s index with
  | nil => exact absurd h (by simp [runSteps])
  | cons b bs ih =>
    have hb := hbs b List.mem_cons_self
    rcases runSteps_cons_eq_error_iff.1 h with ⟨cause, hcause, rfl⟩ | ⟨value, hvalue, hrest⟩
    · refine ⟨0, b, cause, [], rfl, rfl, fun j hj => absurd hj (Nat.not_lt_zero j), ?_, rfl⟩
      exact refuses_of_evaluate hb hcause
    · obtain ⟨k, b', cause, rs, hk, rfl, hbinds, hrefuses, hsteps⟩ :=
        ih (s := { s with scope := b.step.extend s.scope value })
          (fun b' hb' => hbs b' (List.mem_cons_of_mem b hb')) hrest
      refine ⟨k + 1, b', cause, ⟨b.step.name, value⟩ :: rs, by simpa using hk, ?_, ?_, ?_, ?_⟩
      · rw [Nat.add_assoc, Nat.add_comm 1 k]
      · intro j hj b'' hj'
        cases j with
        | zero =>
          obtain rfl : b = b'' := by simpa using hj'
          exact binds_of_evaluate hb hvalue
        | succ j =>
          rw [before_succ hb hvalue]
          exact hbinds j (by omega) b'' (by simpa using hj')
      · rw [before_succ hb hvalue]
        exact hrefuses
      · rw [List.map_cons, List.take_succ_cons, before_succ hb hvalue]
        exact runSteps_cons_eq_ok_iff.2 ⟨value, rs, hvalue, hsteps, rfl⟩

end Session

/-! ## Whole sessions -/

/-- The program whose steps compute bindings. -/
def Program.ofBindings (bs : List Binding) (outputs : List Program.Output) : Program :=
  ⟨[], bs.map Binding.step, outputs⟩

/-- Bindings of distinct names make a valid program if there are any and if the outputs are right. -/
lemma Program.violation?_ofBindings_eq_none {settings : Settings} {bs : List Binding}
    {outputs : List Program.Output} (hbs : ∀ b ∈ bs, b.WellFormed)
    (hdistinct : (bs.map Binding.name).Nodup) (hne : bs ≠ []) (houtputs_ne : outputs ≠ [])
    (houtputs : ∀ o ∈ outputs, ∃ d, o.value = some d ∧
      ∀ name, d.plainName? = some name → name ∈ bs.map Binding.name) :
    (ofBindings bs outputs).violation? settings.lenient = none := by
  have hnames : (ofBindings bs outputs).stepNames = bs.map Binding.name := by
    simp [stepNames, ofBindings, Function.comp_def, Binding.step, Step.of]
  refine violation?_eq_none_iff.2 ⟨by simpa [ofBindings] using hne, fun i hi => ?_, houtputs_ne, ?_,
    ?_, ?_, fun h => absurd h (by simp [Settings.lenient])⟩
  · exact absurd hi List.not_mem_nil
  · intro step hstep
    obtain ⟨b, hb, rfl⟩ := List.mem_map.1 hstep
    refine ⟨fun hempty => ?_, rfl⟩
    have hname : b.name = "" := hempty
    exact (hbs b hb).trimmed_name.1 (by rw [hname]; rfl)
  · rw [hnames]
    exact houtputs
  · rw [hnames, inputNames, ofBindings, List.map_nil, List.nil_append]
    exact hdistinct

namespace Session

/-- **A session of bindings is a run of a program.** Let the program of some bindings pass validation.
Its run comes to an end exactly if the session binds all names, and then the scopes are the same. If the
run fails, it does so at the step of the first line that binds nothing, and the scopes that were built up
to there are the same. -/
theorem binds_all_iff_run {settings : Settings} {bs : List Binding} {outputs : List Program.Output}
    (hbs : ∀ b ∈ bs, b.WellFormed)
    (hvalid : (Program.ofBindings bs outputs).violation? settings.lenient = none) :
    ((∀ k b, bs[k]? = some b → ((start settings).before bs k).Binds b) ↔
      ∃ t, (Program.ofBindings bs outputs).run settings.lenient = .ok t) ∧
    (∀ t, (Program.ofBindings bs outputs).run settings.lenient = .ok t →
      ((start settings).after (bs.map Binding.line)).scope = t.scope) ∧
    ∀ e, (Program.ofBindings bs outputs).run settings.lenient = .error e →
      ∃ k b cause rs, bs[k]? = some b ∧ e = .failed k b.name cause ∧
        (∀ j < k, ∀ b', bs[j]? = some b' → ((start settings).before bs j).Binds b') ∧
        ((start settings).before bs k).Refuses b ∧
        Program.runSteps settings.lenient 0 .empty ((bs.map Binding.step).take k) =
          .ok (rs, ((start settings).before bs k).scope) := by
  have hok : ∀ t, (Program.ofBindings bs outputs).run settings.lenient = .ok t →
      ((start settings).after (bs.map Binding.line)).scope = t.scope ∧
        ∀ k b, bs[k]? = some b → ((start settings).before bs k).Binds b := by
    intro t ht
    obtain ⟨-, hsteps, -⟩ := Program.run_eq_ok_iff.1 ht
    exact after_of_runSteps (s := start settings) hbs hsteps
  have hfails : ∀ e, (Program.ofBindings bs outputs).run settings.lenient = .error e →
      ∃ k b cause rs, bs[k]? = some b ∧ e = .failed k b.name cause ∧
        (∀ j < k, ∀ b', bs[j]? = some b' → ((start settings).before bs j).Binds b') ∧
        ((start settings).before bs k).Refuses b ∧
        Program.runSteps settings.lenient 0 .empty ((bs.map Binding.step).take k) =
          .ok (rs, ((start settings).before bs k).scope) := by
    intro e he
    have hsteps := Program.runSteps_of_run_eq_error hvalid he
    obtain ⟨k, b, cause, rs, hk, rfl, hrest⟩ := refuses_of_runSteps (s := start settings) hbs hsteps
    exact ⟨k, b, cause, rs, hk, by rw [Nat.zero_add], hrest⟩
  refine ⟨⟨fun hbinds => ?_, fun ⟨t, ht⟩ => (hok t ht).2⟩, fun t ht => (hok t ht).1, hfails⟩
  rcases hrun : (Program.ofBindings bs outputs).run settings.lenient with e | t
  · obtain ⟨k, b, -, -, hk, -, -, hrefuses, -⟩ := hfails e hrun
    exact absurd hrefuses (not_refuses_of_binds (hbinds k b hk))
  · exact ⟨t, rfl⟩

/-- A binding. -/
def halfTurn : Binding :=
  ⟨"a", "pi"⟩

/-- A binding whose source has an equality sign, too. -/
def equation : Binding :=
  ⟨"b", "\x7b\x7ba\x7d\x7d = 1"⟩

lemma evaluate_halfTurn :
    ∃ x, halfTurn.step.evaluate Settings.standard.lenient .empty = .ok (some x) := by
  have htext : (Template.ofSource "pi").text = "pi".toList := by with_unfolding_all rfl
  have htokens : tokenize (Template.ofSource "pi").text = .ok [⟨.name "pi", ⟨0, 2⟩⟩] := by
    rw [htext]
    exact tokenize_name (by decide) (by rfl)
  have hresolved : (Expr.symbol ⟨0, 2⟩ "pi").Resolved :=
    Expr.resolutionFault?_eq_none_iff.1 rfl
  have hformula : (Definition.source "pi").formula Settings.standard.lenient =
      .ok ⟨.symbol ⟨0, 2⟩ "pi", Template.ofSource "pi", variablesOf "pi"⟩ :=
    Formula.ofSource_eq_ok_iff.2 ⟨by decide, _, _, htokens, rfl, by decide, hresolved, rfl⟩
  exact ⟨_, Program.Step.evaluate_eq_ok_iff.2
    ⟨_, rfl, .inr ⟨by decide, _, Definition.evaluate_eq_ok_iff.2 ⟨_, hformula, rfl⟩, rfl⟩⟩⟩

/-- No token begins with an equality sign. -/
lemma evaluate_equation_ne_ok {scope : Scope} {value : Option Float} :
    equation.step.evaluate Settings.standard.lenient scope ≠ .ok value := by
  intro hvalue
  have htokens : tokensOf (Template.ofSource equation.source).text = none := by
    with_unfolding_all rfl
  obtain ⟨d, hd, hcase⟩ := Program.Step.evaluate_eq_ok_iff.1 hvalue
  obtain rfl := Option.some.inj hd
  rcases hcase with ⟨hblank, -⟩ | ⟨-, x, hx, -⟩
  · exact absurd hblank (by decide)
  · obtain ⟨f, hf, -⟩ := Definition.evaluate_eq_ok_iff.1 hx
    obtain ⟨-, ls, e, hls, -⟩ := Formula.ofSource_eq_ok_iff.1 hf
    rw [tokensOf_of_tokenize hls] at htokens
    exact absurd htokens (by simp)

theorem refuses_equation : ∃ cause,
    (Program.ofBindings [halfTurn, equation] [.of "c" .float "b"]).run Settings.standard.lenient =
      .error (.failed 1 "b" cause) ∧
    (start .standard).Binds halfTurn ∧
    ((start .standard).before [halfTurn, equation] 1).Refuses equation := by
  have hbs : ∀ b ∈ [halfTurn, equation], b.WellFormed := by
    intro b hb
    rcases List.mem_pair.1 hb with rfl | rfl
    · exact ⟨by decide, by decide, by decide⟩
    · exact ⟨by decide, by decide, by decide⟩
  have houtputs : ∀ o ∈ [Program.Output.of "c" .float "b"], ∃ d, o.value = some d ∧
      ∀ name, d.plainName? = some name → name ∈ [halfTurn, equation].map Binding.name := by
    intro o ho
    obtain rfl := List.mem_singleton.1 ho
    refine ⟨_, rfl, fun name hname => ?_⟩
    obtain rfl : "b" = name := Option.some.inj hname
    decide
  have hvalid : (Program.ofBindings [halfTurn, equation] [.of "c" .float "b"]).violation?
      Settings.standard.lenient = none :=
    Program.violation?_ofBindings_eq_none hbs (by decide) (by decide) (by decide) houtputs
  obtain ⟨-, -, hfails⟩ := binds_all_iff_run hbs hvalid
  obtain ⟨x, hx⟩ := evaluate_halfTurn
  have hbinds : (start .standard).Binds halfTurn := binds_of_evaluate (hbs _ List.mem_cons_self) hx
  rcases hrun : (Program.ofBindings [halfTurn, equation] [.of "c" .float "b"]).run
    Settings.standard.lenient with e | t
  · obtain ⟨k, b, cause, rs, hk, rfl, -, hrefuses, -⟩ := hfails e hrun
    rcases k with _ | _ | k
    · obtain rfl : halfTurn = b := Option.some.inj hk
      exact absurd hrefuses (not_refuses_of_binds hbinds)
    · obtain rfl : equation = b := Option.some.inj hk
      exact ⟨cause, rfl, hbinds, hrefuses⟩
    · exact absurd hk (by simp)
  · obtain ⟨-, hsteps, -⟩ := Program.run_eq_ok_iff.1 hrun
    obtain ⟨_, _, -, hrest, -⟩ := Program.runSteps_cons_eq_ok_iff.1 hsteps
    obtain ⟨_, _, hvalue, -, -⟩ := Program.runSteps_cons_eq_ok_iff.1 hrest
    exact absurd hvalue evaluate_equation_ne_ok

end Session
end Formulary
