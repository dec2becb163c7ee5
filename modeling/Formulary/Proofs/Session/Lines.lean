import Formulary.Proofs.Scope
import Formulary.Proofs.Text.Trimming
import Formulary.Session
/-!
# What lines ask for

A line binds a name if a name stands in front of its first equality sign and no other one right behind it
(`AsksToBind`), and it resets the session if `:reset` is its first word (`AsksToReset`). These are the lines
that can change a scope; the session reads them so and no others (`SessionLine.ofText_eq_bind_iff`,
`SessionLine.asksToReset_iff`).
-/

namespace Formulary

/-- But for blanks, the line is a name, an equality sign that no other one follows, and a source. -/
def AsksToBind (line name source : String) : Prop :=
  ∃ left right, (trim line).toList = left ++ '=' :: right ∧ '=' ∉ left ∧ right.head? ≠ some '=' ∧
    trim (String.ofList left) = name ∧ isName name = true ∧ trim (String.ofList right) = source

/-- But for blanks, the line is the command by itself, or the command and a space come first in it. -/
def AsksToReset (line : String) : Prop :=
  trim line = ":reset" ∨ ∃ argument, (trim line).toList = ":reset ".toList ++ argument

namespace SessionLine

variable {c : Char} {cs left right : List Char}

/-! ## Cuts -/

lemma cutAt?_eq_some_iff :
    cutAt? c cs = some (left, right) ↔ cs = left ++ c :: right ∧ c ∉ left := by
  constructor
  · intro h
    have hsplit := List.takeWhile_append_dropWhile (p := fun d => decide (d ≠ c)) (l := cs)
    have hhead := List.head?_dropWhile_not (fun d => decide (d ≠ c)) cs
    rw [cutAt?] at h
    split at h
    · exact absurd h (by simp)
    · rename_i d rest hdrop
      obtain ⟨rfl, rfl⟩ := Prod.mk.inj (Option.some.inj h)
      rw [hdrop] at hsplit hhead
      obtain rfl : d = c := by simpa using hhead
      exact ⟨hsplit.symm, fun hmem => by simpa using List.mem_takeWhile_imp hmem⟩
  · rintro ⟨rfl, hleft⟩
    have hpass : ∀ d ∈ left, decide (d ≠ c) = true := by
      intro d hd
      refine decide_eq_true ?_
      rintro rfl
      exact hleft hd
    have hdrop : (left ++ c :: right).dropWhile (· ≠ c) = c :: right := by
      rw [List.dropWhile_append_of_pos hpass, List.dropWhile_cons_of_neg (by simp)]
    have htake : (left ++ c :: right).takeWhile (· ≠ c) = left := by
      rw [List.takeWhile_append_of_pos hpass, List.takeWhile_cons_of_neg (by simp), List.append_nil]
    rw [cutAt?, hdrop]
    simp only [htake]

/-! ## Bindings -/

/-- What a name was cut from does not begin with a colon. -/
lemma head?_ne_colon (h : isName (trim (String.ofList left)) = true) : left.head? ≠ some ':' := by
  intro hhead
  obtain ⟨rest, rfl⟩ := List.head?_eq_some_iff.1 hhead
  have hfront : (':' :: rest).dropWhile isBlank = ':' :: rest :=
    List.dropWhile_cons_of_neg (by decide)
  rw [trim_eq, String.toList_ofList, hfront, isName, String.toList_ofList] at h
  -- what is left when the other end is cut is nothing, or it still begins with the colon
  obtain ⟨after, hafter⟩ := List.rdropWhile_prefix isBlank (':' :: rest)
  generalize (':' :: rest).rdropWhile isBlank = name at h hafter
  cases name with
  | nil => exact absurd h (by simp [isNameText])
  | cons d ds =>
    obtain rfl : d = ':' := (List.cons.inj hafter).1
    exact absurd h (by simp [isNameText, isNameStart])

theorem ofText_eq_bind_iff {line name source : String} :
    ofText line = .bind name source ↔ AsksToBind line name source := by
  rw [ofText, ofTrimmed]
  constructor
  · intro h
    split at h
    · exact absurd h (by simp)
    · split at h <;> exact absurd h (by simp)
    · split at h
      · exact absurd h (by simp)
      · rename_i left right hcut
        obtain ⟨hline, hleft⟩ := cutAt?_eq_some_iff.1 hcut
        dsimp only at h
        split at h
        · rename_i hguard
          obtain ⟨hname, hright⟩ := Bool.and_eq_true_iff.1 hguard
          obtain ⟨rfl, rfl⟩ := SessionLine.bind.inj h
          exact ⟨left, right, hline, hleft, of_decide_eq_true hright, rfl, hname, rfl⟩
        · exact absurd h (by simp)
  · rintro ⟨left, right, hline, hleft, hright, rfl, hname, rfl⟩
    have hcut := cutAt?_eq_some_iff.2 ⟨hline, hleft⟩
    split
    · rename_i hempty
      rw [hempty] at hline
      exact absurd hline (by simp)
    · rename_i rest hcolon
      rw [hcolon] at hline
      cases left with
      | nil => exact absurd (List.cons.inj hline).1 (by decide)
      | cons d ds => exact absurd (congrArg some (List.cons.inj hline).1.symm) (head?_ne_colon hname)
    · rw [hcut]
      dsimp only
      rw [if_pos (by rw [hname]; exact decide_eq_true hright)]

/-! ## Resets -/

lemma lookup_commands_eq_reset_iff {name : String} :
    Session.commands.lookup name = some .reset ↔ name = ":reset" := by
  constructor
  · intro h
    simpa [Session.commands] using mem_of_lookup h
  · rintro rfl
    rfl

theorem asksToReset_iff {line : String} : AsksToReset line ↔
    ∃ name argument text, ofText line = .command name argument text ∧
      Session.commands.lookup name = some .reset := by
  simp only [lookup_commands_eq_reset_iff]
  rw [ofText]
  constructor
  · rintro (h | ⟨argument, h⟩)
    · rw [h]
      exact ⟨_, _, _, rfl, rfl⟩
    · have hcut : cutAt? ' ' (trim line).toList = some (":reset".toList, argument) :=
        cutAt?_eq_some_iff.2 ⟨h, by decide⟩
      have hcolon : (trim line).toList = ':' :: ("reset ".toList ++ argument) := h
      refine ⟨":reset", String.ofList argument, trim line, ?_, rfl⟩
      rw [ofTrimmed]
      split
      · rename_i hempty
        rw [hcolon] at hempty
        exact absurd hempty (by simp)
      · rw [hcut]
        rfl
      · rename_i hother
        exact absurd hcolon (hother _)
  · rintro ⟨name, argument, text, h, rfl⟩
    rw [ofTrimmed] at h
    split at h
    · exact absurd h (by simp)
    · split at h
      · rename_i name argument hcut
        have hname : name = ":reset".toList := by
          rw [← (SessionLine.command.inj h).1, String.toList_ofList]
        right
        refine ⟨argument, ?_⟩
        rw [(cutAt?_eq_some_iff.1 hcut).1, hname]
        rfl
      · exact .inl (SessionLine.command.inj h).1
    · split at h
      · exact absurd h (by simp)
      · dsimp only at h
        split at h <;> exact absurd h (by simp)

end SessionLine
end Formulary
