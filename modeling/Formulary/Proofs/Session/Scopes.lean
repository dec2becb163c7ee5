import Formulary.Proofs.Program.Names
import Formulary.Proofs.Session.Bindings
/-!
# The scopes of sessions

What a line does to the scope of a session is told by what it asks for (`Session.Effect`): a reset clears
it, a binding whose source comes to a number changes that one binding, and every other line leaves it as
it is. This is all that lines do (`Session.effect_iff_respond`), so a property that these effects keep
holds of the scope after any lines; one is that its names can be referred to and its numbers are finite
(`Session.scope_of_lines`).
-/

namespace Formulary

open Result

/-! ## Binding a name in its place -/

/-- A name that is bound keeps its place and gets the new number. -/
lemma bindName_of_mem {name : String} {x y : Float} {before after : List (String × Float)}
    (h : name ∉ before.map Prod.fst) :
    bindName name x (before ++ (name, y) :: after) = before ++ (name, x) :: after := by
  induction before with
  | nil => simp [bindName]
  | cons b bs ih =>
    rw [List.map_cons, List.mem_cons, not_or] at h
    rw [List.cons_append, bindName, if_neg (Ne.symm h.1), ih h.2, List.cons_append]

/-- A name that is not bound comes last. -/
lemma bindName_of_not_mem {name : String} {x : Float} {bs : List (String × Float)}
    (h : name ∉ bs.map Prod.fst) : bindName name x bs = bs ++ [(name, x)] := by
  induction bs with
  | nil => rfl
  | cons b bs ih =>
    rw [List.map_cons, List.mem_cons, not_or] at h
    rw [bindName, if_neg (Ne.symm h.1), ih h.2, List.cons_append]

namespace Scope

variable {scope t : Scope} {name : String} {x y : Float} {before after : List (String × Float)}

lemma bindings_insert_of_mem (h : scope.bindings = before ++ (name, y) :: after) :
    (scope.insert name x).bindings = before ++ (name, x) :: after := by
  have hdistinct := scope.distinct
  rw [h, List.map_append, List.nodup_append] at hdistinct
  have hbefore : name ∉ before.map Prod.fst := fun hmem =>
    hdistinct.2.2 name hmem name (by simp) rfl
  rw [← bindName_of_mem hbefore, ← h]
  rfl

lemma bindings_insert_of_not_mem (h : name ∉ scope.names) :
    (scope.insert name x).bindings = scope.bindings ++ [(name, x)] :=
  bindName_of_not_mem h

/-- The names can be referred to, and the numbers are finite. -/
def WellFormed (scope : Scope) : Prop :=
  ∀ b ∈ scope.bindings, isName b.1 = true ∧ b.2.isFinite = true

end Scope

namespace Session

variable {settings : Settings} {line : String} {scope t : Scope} {s : Session}

/-- A line may clear a scope, give a name that is bound another number in the same place, bind a new name
after the others, or leave the scope as it is; what it asks for decides which. -/
inductive Effect (settings : Settings) (line : String) (scope : Scope) : Scope → Prop
  | clears : AsksToReset line → Effect settings line scope .empty
  | rebinds {name source : String} {x y : Float} {before after : List (String × Float)} {t : Scope} :
    AsksToBind line name source → evaluateSource settings source scope = .ok x →
    scope.bindings = before ++ (name, y) :: after → t.bindings = before ++ (name, x) :: after →
    Effect settings line scope t
  | appends {name source : String} {x : Float} {t : Scope} :
    AsksToBind line name source → evaluateSource settings source scope = .ok x →
    name ∉ scope.names → t.bindings = scope.bindings ++ [(name, x)] →
    Effect settings line scope t
  | keeps : ¬ AsksToReset line →
    (∀ name source x, AsksToBind line name source → evaluateSource settings source scope ≠ .ok x) →
    Effect settings line scope scope

/-! ## One line -/

lemma respond_of_asksToReset (h : AsksToReset line) :
    (s.respond line).1 = { s with scope := .empty } := by
  obtain ⟨name, argument, text, hline, hreset⟩ := SessionLine.asksToReset_iff.1 h
  rw [respond, hline, answer, hreset]
  rfl

lemma respond_of_asksToBind {name source : String} {x : Float} (h : AsksToBind line name source)
    (hx : evaluateSource s.settings source s.scope = .ok x) :
    (s.respond line).1 = { s with scope := s.scope.insert name x } := by
  rw [respond, SessionLine.ofText_eq_bind_iff.2 h, answer, hx]

/-- A line that neither resets the session nor binds a name leaves it as it is. -/
lemma respond_of_neither (hreset : ¬ AsksToReset line) (hbind : ∀ name source x,
    AsksToBind line name source → evaluateSource s.settings source s.scope ≠ .ok x) :
    (s.respond line).1 = s := by
  rw [respond]
  rcases hline : SessionLine.ofText line with _ | ⟨name, argument, text⟩ | ⟨name, source⟩ | text
  · rfl
  · rw [answer]
    rcases hname : commands.lookup name with _ | command
    · rfl
    · cases command with
      | reset => exact absurd (SessionLine.asksToReset_iff.2 ⟨_, _, _, hline, hname⟩) hreset
      | _ => rfl
  · rw [answer]
    rcases hvalue : evaluateSource s.settings source s.scope with fault | x
    · rfl
    · exact absurd hvalue (hbind name source x (SessionLine.ofText_eq_bind_iff.1 hline))
  · rw [answer]
    rcases evaluateSource s.settings text s.scope with fault | x <;> rfl

/-- The settings of a session stay as they are. -/
lemma settings_respond (s : Session) (line : String) : (s.respond line).1.settings = s.settings := by
  by_cases hreset : AsksToReset line
  · rw [respond_of_asksToReset hreset]
  · by_cases hbind : ∃ name source x, AsksToBind line name source ∧
      evaluateSource s.settings source s.scope = .ok x
    · obtain ⟨name, source, x, hasks, hx⟩ := hbind
      rw [respond_of_asksToBind hasks hx]
    · rw [respond_of_neither hreset fun name source x hasks hx => hbind ⟨name, source, x, hasks, hx⟩]

lemma Effect.insert {name source : String} {x : Float} (h : AsksToBind line name source)
    (hx : evaluateSource settings source scope = .ok x) :
    Effect settings line scope (scope.insert name x) := by
  by_cases hname : name ∈ scope.names
  · obtain ⟨⟨n, y⟩, hmem, rfl : n = name⟩ := List.mem_map.1 hname
    obtain ⟨before, after, hbindings⟩ := List.append_of_mem hmem
    exact .rebinds h hx hbindings (Scope.bindings_insert_of_mem hbindings)
  · exact .appends h hx hname (Scope.bindings_insert_of_not_mem hname)

/-- Each line has one effect on the scope, and this is the one that the session carries out. -/
theorem effect_iff_respond (s : Session) (line : String) :
    Effect s.settings line s.scope t ↔ t = (s.respond line).1.scope := by
  constructor
  · intro h
    cases h with
    | clears hasks => rw [respond_of_asksToReset hasks]
    | rebinds hasks hx hbindings ht =>
      rw [respond_of_asksToBind hasks hx]
      exact Scope.ext_bindings (ht.trans (Scope.bindings_insert_of_mem hbindings).symm)
    | appends hasks hx hname ht =>
      rw [respond_of_asksToBind hasks hx]
      exact Scope.ext_bindings (ht.trans (Scope.bindings_insert_of_not_mem hname).symm)
    | keeps hreset hbind => rw [respond_of_neither hreset hbind]
  · rintro rfl
    by_cases hreset : AsksToReset line
    · rw [respond_of_asksToReset hreset]
      exact .clears hreset
    · by_cases hbind : ∃ name source x, AsksToBind line name source ∧
        evaluateSource s.settings source s.scope = .ok x
      · obtain ⟨name, source, x, hasks, hx⟩ := hbind
        rw [respond_of_asksToBind hasks hx]
        exact .insert hasks hx
      · have hneither : ∀ name source x, AsksToBind line name source →
            evaluateSource s.settings source s.scope ≠ .ok x :=
          fun name source x hasks hx => hbind ⟨name, source, x, hasks, hx⟩
        rw [respond_of_neither hreset hneither]
        exact .keeps hreset hneither

/-! ## Any lines -/

lemma isFinite_of_evaluateSource {source : String} {x : Float}
    (h : evaluateSource settings source scope = .ok x) : x.isFinite = true :=
  Definition.isFinite_of_evaluate (evaluateSource_eq_ok_iff.1 h)

/-- A line keeps the names such that they can be referred to, and the numbers finite. -/
lemma Effect.wellFormed (h : Effect settings line scope t) (hscope : scope.WellFormed) :
    t.WellFormed := by
  cases h with
  | clears _ => exact fun b hb => absurd hb List.not_mem_nil
  | @rebinds name source x y before after t hasks hx hbindings ht =>
    obtain ⟨-, -, -, -, -, -, hname, -⟩ := hasks
    intro b hb
    rw [Scope.WellFormed, hbindings] at hscope
    rw [ht] at hb
    rcases List.mem_append.1 hb with hb | hb
    · exact hscope b (by simp [hb])
    · rcases List.mem_cons.1 hb with rfl | hb
      · exact ⟨hname, isFinite_of_evaluateSource hx⟩
      · exact hscope b (by simp [hb])
  | @appends name source x t hasks hx _ ht =>
    obtain ⟨-, -, -, -, -, -, hname, -⟩ := hasks
    intro b hb
    rw [ht] at hb
    rcases List.mem_append.1 hb with hb | hb
    · exact hscope b hb
    · obtain rfl := List.mem_singleton.1 hb
      exact ⟨hname, isFinite_of_evaluateSource hx⟩
  | keeps _ _ => exact hscope

lemma wellFormed_after (lines : List String) (h : s.scope.WellFormed) :
    (s.after lines).scope.WellFormed := by
  induction lines generalizing s with
  | nil => exact h
  | cons line lines ih =>
    have hnext : (s.respond line).1.scope.WellFormed :=
      ((effect_iff_respond s line).2 rfl).wellFormed h
    rw [after]
    split
    · exact hnext
    · exact ih hnext

/-- **After any lines the names of a session can be referred to and its numbers are finite. A line leaves
the scope as it is, unless it resets the session or binds a name to a number: then the scope is cleared,
or that one binding is changed in its place or added at the end.** -/
theorem scope_of_lines (settings : Settings) :
    (∀ lines, ((start settings).after lines).scope.WellFormed) ∧
    ∀ (s : Session) (line : String), (s.respond line).1.settings = s.settings ∧
      ∀ t, Effect s.settings line s.scope t ↔ t = (s.respond line).1.scope := by
  refine ⟨fun lines => wellFormed_after lines ?_, fun s line => ⟨settings_respond s line, fun t => ?_⟩⟩
  · exact fun b hb => absurd hb List.not_mem_nil
  · exact effect_iff_respond s line

end Session
end Formulary
