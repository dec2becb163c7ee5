import Formulary.Proofs.Json.Reading
/-!
# Records and what they are read from

An object is read as a record member by member: `Fills` says that the members that are left fill a
draft up to a record, with one lemma for a member that is there (`Fills.cons`) and one for a member that
may be left out (`Fills.memberOf`). What every field keeps of a draft is true of the draft of which the
record is made, for objects and for arrays (`yields_record`).
-/

namespace Formulary.Json

open Result

variable {α β δ : Type} {depth : Nat} {shape : Shape δ α}

/-! ## Written records -/

/-- With the members that are left a draft becomes a record. -/
def Fills (shape : Shape δ α) (depth : Nat) (draft : δ) (ms : List (String × Json)) (a : α) : Prop :=
  ∀ members, HoldsMembers members ms → shape.readMembers depth draft members = .ok a

section
variable {draft : δ} {ms : List (String × Json)} {a : α} {key : String} {f : Field δ}

lemma Fills.nil (h : shape.build draft = .ok a) : Fills shape depth draft [] a := by
  rintro members ⟨⟩
  rw [Shape.readMembers, Shape.finish, h, mapError_ok]

lemma Fills.cons {v : Json} {fill : δ → δ} (hf : shape.field? key = some f)
    (hset : f.isSet draft = false) (hread : ReadsAs f.read depth v fill)
    (h : Fills shape depth (fill draft) ms a) : Fills shape depth draft ((key, v) :: ms) a := by
  intro members hmembers
  cases hmembers with
  | member hd hmembers =>
    rw [Shape.readMembers, sound, mapError_ok, ok_bind, hf]
    dsimp only
    rw [if_neg (by simp [hset]), hread _ hd, located, mapError_ok, ok_bind]
    exact h _ hmembers

lemma Fills.memberOf (draft' : δ) {write : β → Json} {fill : β → δ → δ} {o : Option β}
    (hf : shape.field? key = some f) (hset : f.isSet draft = false)
    (hread : ∀ b ∈ o, ReadsAs f.read depth (write b) (fill b))
    (hdraft : draft' = o.elim draft fun b => fill b draft) (h : Fills shape depth draft' ms a) :
    Fills shape depth draft (memberOf key write o ++ ms) a := by
  subst hdraft
  cases o with
  | none => exact h
  | some b => exact Fills.cons hf hset (hread b rfl) h

/-- An object whose members fill the blank draft is read as the record. -/
lemma reads_record (h : Fills shape depth shape.blank ms a) :
    ReadsAs shape.reader (depth + 1) (.object ms) a := by
  rintro d ⟨⟩
  rename_i members hmembers
  exact h members hmembers

lemma reads_filling {read : Reader β} {set : β → δ → δ} {v : Json} {b : β}
    (h : ReadsAs read depth v b) :
    ReadsAs (fun depth d => set <$> read depth d) depth v (set b) := by
  intro d hd
  change set <$> read depth d = _
  rw [h d hd]
  rfl

end

/-! ## What fields keep -/

section
variable {Q : δ → Prop}

lemma yields_filling {read : Reader β} {set : β → δ → δ} {R : β → Prop} (h : Yields read depth R)
    (hset : ∀ {b : β} {draft : δ}, R b → Q draft → Q (set b draft)) :
    Yields (fun depth d => set <$> read depth d) depth fun fill =>
      ∀ draft, Q draft → Q (fill draft) := by
  intro d fill hd hfill draft hdraft
  obtain ⟨b, hb, rfl⟩ := map_eq_ok.1 hfill
  exact hset (h hd hb) hdraft

lemma yields_any (read : Reader α) : Yields read depth fun _ => True :=
  fun _ _ => trivial

lemma keeps_finish {stop : Nat} {draft : δ} {a : α} {R : α → Prop}
    (hbuild : ∀ {draft a}, Q draft → shape.build draft = .ok a → R a) (hdraft : Q draft)
    (h : shape.finish stop draft = .ok a) : R a :=
  hbuild hdraft (mapError_eq_ok.1 h)

variable {R : α → Prop}
  (hfields : ∀ f ∈ shape.fields, Yields f.read depth fun fill => ∀ draft, Q draft → Q (fill draft))
  (hbuild : ∀ {draft a}, Q draft → shape.build draft = .ok a → R a)
include hfields hbuild

lemma keeps_readMembers : ∀ {members : Members} {draft : δ} {a : α}, members.InRange → Q draft →
    shape.readMembers depth draft members = .ok a → R a
  | .closed stop, draft, a, hmembers, hdraft, h => keeps_finish hbuild hdraft h
  | .broken key faults, draft, a, hmembers, hdraft, h => absurd h (by simp [Shape.readMembers])
  | .member key keyStop colon d resume members, draft, a, hmembers, hdraft, h => by
    rw [Shape.readMembers] at h
    obtain ⟨k, hk, h⟩ := bind_eq_ok.1 h
    split at h
    · rename_i f hf
      split at h
      · exact absurd h (by simp [located, mismatched])
      · obtain ⟨fill, hfill, h⟩ := bind_eq_ok.1 h
        have hkeeps := hfields f (List.mem_of_find?_eq_some hf) hmembers.1 (located_eq_ok.1 hfill)
        exact keeps_readMembers hmembers.2 (hkeeps draft hdraft) h
    · split at h
      · exact absurd h (by simp [located, mismatched])
      · split at h
        · exact absurd h (by simp)
        · exact keeps_readMembers hmembers.2 hdraft h

lemma keeps_readItems {fields : List (Field δ)} (hsub : ∀ f ∈ fields, f ∈ shape.fields) :
    ∀ {items : Items} {draft : δ} {a : α}, items.InRange → Q draft →
      shape.readItems depth draft fields items = .ok a → R a := by
  induction fields with
  | nil =>
    intro items draft a hitems hdraft h
    cases items with
    | closed stop => exact keeps_finish hbuild hdraft h
    | broken faults closing => exact absurd h (by simp [Shape.readItems])
    | item d resume items => exact absurd h (by simp [Shape.readItems])
  | cons f fields ih =>
    obtain ⟨hf, hmore⟩ := List.forall_mem_cons.1 hsub
    intro items draft a hitems hdraft h
    cases items with
    | closed stop =>
      rw [Shape.readItems] at h
      split at h
      · exact absurd h (by simp)
      · exact keeps_finish hbuild hdraft h
    | broken faults closing => exact absurd h (by simp [Shape.readItems])
    | item d resume items =>
      rw [Shape.readItems] at h
      obtain ⟨fill, hfill, h⟩ := bind_eq_ok.1 h
      exact ih hmore hitems.2 (hfields f hf hitems.1 (located_eq_ok.1 hfill) draft hdraft) h

/-- **What every field keeps of a draft, and the blank draft has, is true of the draft of each record
that is read.** -/
theorem yields_record (hblank : Q shape.blank) : Yields shape.reader (depth + 1) R := by
  intro d a hd h
  unfold Shape.reader at h
  split at h
  · exact keeps_readMembers hfields hbuild hd hblank h
  · exact keeps_readItems hfields hbuild (fun f hf => hf) hd hblank h
  · exact absurd h unwanted_ne_ok

end

end Formulary.Json
