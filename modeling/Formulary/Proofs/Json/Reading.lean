import Formulary.Proofs.Json.Documents
import Formulary.Proofs.Json.Ranges
/-!
# Readers and what they read

A reader is described from two sides. `ReadsAs read depth v a` says what it makes of the documents that
hold a value, and `Yields read depth R` what is true of anything that it makes of a document. The reader
of any value makes settled values only (`settled_of_json`), and a settled value it reads as it is
(`reads_json`).
-/

namespace Formulary.Json

open Result

variable {α β : Type} {depth : Nat}

/-- What a reader makes of every document that holds a value. -/
def ReadsAs (read : Reader α) (depth : Nat) (v : Json) (a : α) : Prop :=
  ∀ d, Holds d v → read depth d = .ok a

/-- What is true of whatever a reader makes of a document whose numbers are in range. -/
def Yields (read : Reader α) (depth : Nat) (R : α → Prop) : Prop :=
  ∀ {d : Document} {a : α}, d.InRange → read depth d = .ok a → R a

lemma opened_eq_ok {start : Nat} {read : Nat → Except Problem α} {a : α} :
    opened depth start read = .ok a ↔ ∃ k, depth = k + 1 ∧ read k = .ok a := by
  cases depth with
  | zero => simp [opened]
  | succ depth => simp [opened]

lemma located_eq_ok {position : Nat} {r : Except Problem α} {a : α} :
    located position r = .ok a ↔ r = .ok a :=
  mapError_eq_ok

lemma sound_eq_ok {value : Except Fault α} {a : α} : sound value = .ok a ↔ value = .ok a :=
  mapError_eq_ok

lemma unwanted_ne_ok {wanted : String} {d : Document} {a : α} : unwanted wanted d ≠ .ok a := by
  cases d with
  | number n place => cases n <;> exact fun h => absurd h (by simp [unwanted, sound])
  | string s place => cases s <;> exact fun h => absurd h (by simp [unwanted, sound])
  | _ => exact fun h => absurd h (by simp [unwanted])

/-! ## Any value -/

lemma jsonItems_of_holds {items : Items} {vs : List Json} (h : HoldsItems items vs)
    (hvs : ∀ v ∈ vs, ReadsAs Reader.json depth v v) : Reader.jsonItems depth items = .ok vs := by
  induction vs generalizing items with
  | nil =>
    cases h
    rfl
  | cons v vs ih =>
    obtain ⟨hv, hvs⟩ := List.forall_mem_cons.1 hvs
    cases h with
    | item hd h =>
      rw [Reader.jsonItems, hv _ hd, ok_bind, ih h hvs]
      rfl

lemma jsonMembers_of_holds (sorted : List (String × Json)) {members : Members}
    {ms : List (String × Json)} (h : HoldsMembers members ms)
    (hms : ∀ m ∈ ms, ReadsAs Reader.json depth m.2 m.2) :
    Reader.jsonMembers depth sorted members = .ok (insertMembers sorted ms) := by
  induction ms generalizing members sorted with
  | nil =>
    cases h
    rfl
  | cons m ms ih =>
    obtain ⟨hm, hmore⟩ := List.forall_mem_cons.1 hms
    cases h with
    | member hd h =>
      rw [Reader.jsonMembers, sound, mapError_ok, ok_bind, hm _ hd, ok_bind, ih _ h hmore]
      rfl

/-- The members of an object are sorted when they are read. -/
lemma reads_json_object {ms : List (String × Json)} (hms : ∀ m ∈ ms, ReadsAs Reader.json depth m.2 m.2) :
    ReadsAs Reader.json (depth + 1) (.object ms) (.object (insertMembers [] ms)) := by
  rintro d ⟨⟩
  rename_i h
  rw [Reader.json, opened, jsonMembers_of_holds [] h hms]
  rfl

/-- A settled value is read as it is. -/
theorem reads_json {v : Json} (h : Settled depth v) : ReadsAs Reader.json depth v v := by
  induction h with
  | null =>
    rintro d ⟨⟩
    rfl
  | bool =>
    rintro d ⟨⟩
    rfl
  | number =>
    rintro d ⟨⟩
    rfl
  | string =>
    rintro d ⟨⟩
    rfl
  | array hvs ih =>
    rintro d ⟨⟩
    rename_i h
    rw [Reader.json, opened, jsonItems_of_holds h ih]
    rfl
  | object hms hsorted ih =>
    have hread := reads_json_object ih
    rwa [insertMembers_of_sorted [] hsorted, List.nil_append] at hread

mutual

/-- A value that is read is settled. -/
theorem settled_of_json {depth : Nat} : ∀ {d : Document} {v : Json}, d.InRange →
    Reader.json depth d = .ok v → Settled depth v
  | .null place, v, hd, h => by
    obtain rfl := Except.ok.inj h
    exact .null
  | .bool b place, v, hd, h => by
    obtain rfl := Except.ok.inj h
    exact .bool
  | .number n place, v, hd, h => by
    obtain ⟨n, hn, hv⟩ := bind_eq_ok.1 h
    obtain rfl := sound_eq_ok.1 hn
    obtain rfl := Except.ok.inj hv
    exact .number hd
  | .string s place, v, hd, h => by
    obtain ⟨s, hs, hv⟩ := bind_eq_ok.1 h
    obtain rfl := Except.ok.inj hv
    exact .string
  | .array start items, v, hd, h => by
    rw [Reader.json, opened_eq_ok] at h
    obtain ⟨k, rfl, h⟩ := h
    obtain ⟨vs, hvs, hv⟩ := bind_eq_ok.1 h
    obtain rfl := Except.ok.inj hv
    exact .array (settled_of_jsonItems hd hvs)
  | .object start members, v, hd, h => by
    rw [Reader.json, opened_eq_ok] at h
    obtain ⟨k, rfl, h⟩ := h
    obtain ⟨ms, hms, hv⟩ := bind_eq_ok.1 h
    obtain rfl := Except.ok.inj hv
    obtain ⟨hsettled, hsorted⟩ :=
      settled_of_jsonMembers hd (List.forall_mem_nil _) List.Pairwise.nil hms
    exact .object hsettled hsorted
  | .cut _ _ _, v, hd, h => absurd h (by simp [Reader.json])
  | .absent _, v, hd, h => absurd h (by simp [Reader.json])

theorem settled_of_jsonItems {depth : Nat} : ∀ {items : Items} {vs : List Json}, items.InRange →
    Reader.jsonItems depth items = .ok vs → ∀ v ∈ vs, Settled depth v
  | .closed stop, vs, hitems, h => by
    obtain rfl := Except.ok.inj h
    exact List.forall_mem_nil _
  | .broken _ _, vs, hitems, h => absurd h (by simp [Reader.jsonItems])
  | .item d resume items, vs, hitems, h => by
    obtain ⟨v, hv, h⟩ := bind_eq_ok.1 h
    obtain ⟨ws, hws, h⟩ := bind_eq_ok.1 h
    obtain rfl := Except.ok.inj h
    exact List.forall_mem_cons.2 ⟨settled_of_json hitems.1 hv, settled_of_jsonItems hitems.2 hws⟩

theorem settled_of_jsonMembers {depth : Nat} : ∀ {members : Members} {sorted ms : List (String × Json)},
    members.InRange → (∀ m ∈ sorted, Settled depth m.2) → Sorted sorted →
    Reader.jsonMembers depth sorted members = .ok ms → (∀ m ∈ ms, Settled depth m.2) ∧ Sorted ms
  | .closed stop, sorted, ms, hmembers, hsettled, hsorted, h => by
    obtain rfl := Except.ok.inj h
    exact ⟨hsettled, hsorted⟩
  | .broken _ _, sorted, ms, hmembers, hsettled, hsorted, h => absurd h (by simp [Reader.jsonMembers])
  | .member key keyStop colon d resume members, sorted, ms, hmembers, hsettled, hsorted, h => by
    obtain ⟨k, hk, h⟩ := bind_eq_ok.1 h
    obtain ⟨v, hv, h⟩ := bind_eq_ok.1 h
    refine settled_of_jsonMembers hmembers.2 (fun m hm => ?_) (hsorted.insertMember k v) h
    rcases mem_of_mem_insertMember hm with rfl | hm
    · exact settled_of_json hmembers.1 hv
    · exact hsettled m hm

end

/-! ## Words, numbers and strings -/

lemma isFinite_toFloat {n : Number} (hn : n.InRange) : n.toFloat.isFinite = true := by
  cases n with
  | integer n =>
    obtain ⟨hleast, hgreatest⟩ := hn
    cases n with
    | ofNat n => exact isFinite_ofNat (by rw [Int.ofNat_eq_natCast] at hgreatest; omega)
    | negSucc n => exact isFinite_neg (isFinite_ofNat (by omega))
  | real x => exact hn

lemma yields_float : Yields Reader.float depth fun x => x.isFinite = true := by
  intro d x hd h
  unfold Reader.float at h
  split at h
  · obtain ⟨n, hn, hx⟩ := bind_eq_ok.1 h
    obtain rfl := sound_eq_ok.1 hn
    obtain rfl := Except.ok.inj hx
    exact isFinite_toFloat hd
  · exact absurd h unwanted_ne_ok

lemma reads_float {x : Float} (hx : x.isFinite = true) : ReadsAs Reader.float depth (.ofFloat x) x := by
  rw [ofFloat, if_pos hx]
  rintro d ⟨⟩
  rfl

lemma ofFloat_ne_null {x : Float} (hx : x.isFinite = true) : ofFloat x ≠ .null := by
  rw [ofFloat, if_pos hx]
  exact Json.noConfusion

lemma reads_string (s : String) : ReadsAs Reader.string depth (.string s) s := by
  rintro d ⟨⟩
  rfl

lemma reads_unsigned (wanted : String) (n : Nat) :
    ReadsAs (Reader.unsigned wanted) depth (.ofNat n) n := by
  rintro d ⟨⟩
  rfl

lemma reads_enumeration {cases : List (String × α)} {name : String} {a : α}
    (h : cases.lookup name = some a) : ReadsAs (Reader.enumeration cases) depth (.string name) a := by
  rintro d ⟨⟩
  unfold Reader.enumeration Reader.variant
  dsimp only
  rw [sound, mapError_ok, ok_bind, h]
  rfl

/-! ## Options, choices and lists -/

lemma reads_none {read : Reader α} : ReadsAs (Reader.option read) depth .null none := by
  rintro d ⟨⟩
  rfl

lemma reads_some {read : Reader α} {v : Json} {a : α} (hv : v ≠ .null) (h : ReadsAs read depth v a) :
    ReadsAs (Reader.option read) depth v (some a) := by
  intro d hd
  unfold Reader.option
  split
  · cases hd
    exact absurd rfl hv
  · rw [h d hd]
    rfl

lemma yields_option {read : Reader α} {R : α → Prop}
    (h : ∀ {d : Document} {a : α}, d.InRange → (∀ place, d ≠ .null place) →
      read depth d = .ok a → R a) :
    Yields (Reader.option read) depth fun o => ∀ a ∈ o, R a := by
  intro d o hd ho
  unfold Reader.option at ho
  split at ho
  · obtain rfl := Except.ok.inj ho
    exact fun a ha => absurd ha (by simp)
  · rename_i hnull
    obtain ⟨a, ha, rfl⟩ := map_eq_ok.1 ho
    intro b hb
    obtain rfl := Option.mem_some_iff.1 hb
    exact h hd hnull ha

lemma reads_ofOption {read : Reader α} {write : α → Json} {o : Option α}
    (h : ∀ a ∈ o, write a ≠ .null ∧ ReadsAs read depth (write a) a) :
    ReadsAs (Reader.option read) depth (.ofOption write o) o := by
  cases o with
  | none => exact reads_none
  | some a => exact reads_some (h a rfl).1 (h a rfl).2

lemma reads_untagged {type : String} {choose : Json → Option α} {v w : Json} {a : α}
    (hv : ReadsAs Reader.json depth v w) (ha : choose w = some a) :
    ReadsAs (Reader.untagged type choose) depth v a := by
  intro d hd
  rw [Reader.untagged, hv d hd, ok_bind, ha]
  rfl

lemma exists_of_untagged {type : String} {choose : Json → Option α} {d : Document} {a : α}
    (h : Reader.untagged type choose depth d = .ok a) :
    ∃ v, Reader.json depth d = .ok v ∧ choose v = some a := by
  obtain ⟨v, hv, h⟩ := bind_eq_ok.1 h
  refine ⟨v, hv, ?_⟩
  split at h
  · rename_i b hb
    rw [hb, Except.ok.inj h]
  · exact absurd h (by simp [mismatched])

/-- Only `null` is read as `null`. -/
lemma ne_null_of_json {d : Document} {v : Json} (hd : ∀ place, d ≠ .null place)
    (h : Reader.json depth d = .ok v) : v ≠ .null := by
  rintro rfl
  cases d with
  | null place => exact hd place rfl
  | number n place =>
    obtain ⟨m, -, hm⟩ := bind_eq_ok.1 h
    exact absurd (Except.ok.inj hm) (by simp)
  | string s place =>
    obtain ⟨t, -, ht⟩ := bind_eq_ok.1 h
    exact absurd (Except.ok.inj ht) (by simp)
  | array start items =>
    rw [Reader.json, opened_eq_ok] at h
    obtain ⟨k, -, h⟩ := h
    obtain ⟨vs, -, hvs⟩ := bind_eq_ok.1 h
    exact absurd (Except.ok.inj hvs) (by simp)
  | object start members =>
    rw [Reader.json, opened_eq_ok] at h
    obtain ⟨k, -, h⟩ := h
    obtain ⟨ms, -, hms⟩ := bind_eq_ok.1 h
    exact absurd (Except.ok.inj hms) (by simp)
  | _ => exact absurd h (by simp [Reader.json])

lemma items_of_holds {read : Reader α} {write : α → Json} {as : List α} {items : Items}
    (h : HoldsItems items (as.map write)) (has : ∀ a ∈ as, ReadsAs read depth (write a) a) :
    Reader.items read depth items = .ok as := by
  induction as generalizing items with
  | nil =>
    cases h
    rfl
  | cons a as ih =>
    obtain ⟨ha, hmore⟩ := List.forall_mem_cons.1 has
    cases h with
    | item hd h =>
      rw [Reader.items, ha _ hd, located, mapError_ok, ok_bind, ih h hmore]
      rfl

/-- A list that has been written item by item is read as it was. -/
lemma reads_list {read : Reader α} {write : α → Json} {as : List α}
    (h : ∀ a ∈ as, ReadsAs read depth (write a) a) :
    ReadsAs (Reader.list read) (depth + 1) (.array (as.map write)) as := by
  rintro d ⟨⟩
  rename_i hitems
  exact items_of_holds hitems h

lemma yields_items {read : Reader α} {R : α → Prop} (h : Yields read depth R) {as : List α} :
    ∀ {items : Items}, items.InRange → Reader.items read depth items = .ok as → ∀ a ∈ as, R a := by
  induction as with
  | nil => exact fun _ _ => List.forall_mem_nil _
  | cons a as ih =>
    intro items hitems has
    cases items with
    | closed stop => exact absurd has (by simp [Reader.items])
    | broken faults closing => exact absurd has (by simp [Reader.items])
    | item d resume items =>
      obtain ⟨b, hb, has⟩ := bind_eq_ok.1 has
      obtain ⟨bs, hbs, has⟩ := bind_eq_ok.1 has
      obtain ⟨rfl, rfl⟩ := List.cons.inj (Except.ok.inj has)
      exact List.forall_mem_cons.2 ⟨h hitems.1 (located_eq_ok.1 hb), ih hitems.2 hbs⟩

lemma yields_list {read : Reader α} {R : α → Prop} (h : Yields read depth R) :
    Yields (Reader.list read) (depth + 1) fun as => ∀ a ∈ as, R a := by
  intro d as hd has
  unfold Reader.list at has
  split at has
  · exact yields_items h hd has
  · exact absurd has unwanted_ne_ok

/-! ## Texts of values -/

/-- The text of a number is read as the number. -/
def Number.ReadsBack (n : Number) : Prop :=
  readText Reader.json (Json.number n).text = .ok (.number n)

/-- Tokens that have been read stay at the front. -/
lemma prefix_tokensFrom (position : Nat) (before : List Lexeme) (cs : List Char) :
    before.reverse <+: tokensFrom position before cs := by
  fun_induction tokensFrom position before cs with
  | case1 position before => exact List.prefix_rfl
  | case2 position before c cs hgap ih => exact ih
  | case3 position before c cs hgap hlength lexeme ih =>
    rw [List.reverse_cons] at ih
    exact (List.prefix_append _ _).trans ih

lemma readText_eq_ok {read : Reader α} {text : String} {a : α} :
    readText read text = .ok a ↔
      read depthLimit (Json.read text).root = .ok a ∧ (Json.read text).trailing = none := by
  constructor
  · intro h
    obtain ⟨b, hb, h⟩ := bind_eq_ok.1 h
    cases htrailing : (Json.read text).trailing with
    | none =>
      rw [htrailing] at h
      obtain rfl := Except.ok.inj h
      exact ⟨hb, rfl⟩
    | some fault =>
      rw [htrailing] at h
      exact absurd h (by simp)
  · rintro ⟨ha, htrailing⟩
    rw [readText, ha, ok_bind, htrailing]
    rfl

/-- What is left is no text if no token comes of it. -/
lemma eq_nil_of_tokensFrom {position : Nat} {before : List Lexeme} {cs : List Char}
    (hcs : ∀ c ∈ cs, isGap c = false) (h : tokensFrom position before cs = before.reverse) :
    cs = [] := by
  cases cs with
  | nil => rfl
  | cons c cs =>
    rw [tokensFrom_front position (hcs c List.mem_cons_self) Prod.mk.eta.symm] at h
    have hprefix := prefix_tokensFrom (front position c cs).1.place.stop
      ((front position c cs).1 :: before) (front position c cs).2
    exact absurd (h ▸ hprefix).length_le (by simp)

section
variable {size : Nat} {n : Number} {v : Json}

lemma json_assemble_nil : Reader.json depth (assemble size .value [] []).root ≠ .ok v := by
  rw [show assemble size .value [] [] = ⟨.absent ⟨.endInValue, size⟩, none⟩ from rfl]
  exact fun h => absurd h (by simp [Reader.json])

lemma json_assemble_stray {place : Span} :
    Reader.json depth (assemble size .value [] [⟨.stray, place⟩]).root ≠ .ok v := by
  rw [show assemble size .value [] [⟨.stray, place⟩] =
    ⟨.absent ⟨.noValue, place.start + 1⟩, none⟩ from rfl]
  exact fun h => absurd h (by simp [Reader.json])

lemma json_assemble_cut {quoted : Bool} {faults : Faults} {place : Span} :
    Reader.json depth (assemble size .value [] [⟨.cut quoted faults, place⟩]).root ≠ .ok v := by
  rw [show assemble size .value [] [⟨.cut quoted faults, place⟩] =
    ⟨.cut quoted place.start faults, none⟩ from rfl]
  exact fun h => absurd h (by simp [Reader.json])

/-- A number is all of a text that is read without a fault. -/
lemma of_json_assemble_number {value : Except Fault Number} {place : Span} {ls : List Lexeme}
    (hjson : Reader.json depth (assemble size .value [] (⟨.number value, place⟩ :: ls)).root =
      .ok (.number n))
    (htrailing : (assemble size .value [] (⟨.number value, place⟩ :: ls)).trailing = none) :
    value = .ok n ∧ ls = [] := by
  cases ls with
  | nil =>
    obtain ⟨m, hm, hn⟩ := bind_eq_ok.1 hjson
    obtain rfl := Json.number.inj (Except.ok.inj hn)
    exact ⟨sound_eq_ok.1 hm, rfl⟩
  | cons l ls =>
    have hsome : (assemble size .value [] (⟨.number value, place⟩ :: l :: ls)).trailing =
        some ⟨.trailingCharacters, l.place.start + 1⟩ := rfl
    exact absurd (hsome.symm.trans htrailing) (by simp)

/-- Characters of numerals that are read as a number are one numeral. -/
lemma exists_scanNumeral {cs : List Char} (hcs : ∀ c ∈ cs, Numeral.isNumeralChar c = true)
    (hjson : Reader.json depth (assemble size .value [] (tokensFrom 0 [] cs)).root = .ok (.number n))
    (htrailing : (assemble size .value [] (tokensFrom 0 [] cs)).trailing = none) :
    ∃ stop, scanNumeral 0 cs = .found (.ok n) stop [] := by
  cases cs with
  | nil =>
    rw [tokensFrom] at hjson
    exact absurd hjson json_assemble_nil
  | cons c cs =>
    have hc := hcs c List.mem_cons_self
    have hgap := (of_isNumeralChar hc).1
    have hfront := @front_numeral c cs 0 hc
    split at hfront
    · generalize hscan : scanNumeral 0 (c :: cs) = scan at hfront
      cases scan with
      | found value stop rest =>
        have hrest : ∀ d ∈ rest, isGap d = false := fun d hd =>
          (of_isNumeralChar (hcs d ((suffix_of_scanNumeral hscan).subset hd))).1
        obtain ⟨ls, hls⟩ := prefix_tokensFrom stop [⟨.number value, ⟨0, stop⟩⟩] rest
        rw [tokensFrom_front 0 hgap hfront, ← hls] at hjson htrailing
        obtain ⟨rfl, rfl⟩ := of_json_assemble_number hjson htrailing
        rw [List.append_nil] at hls
        exact ⟨stop, congrArg _ (eq_nil_of_tokensFrom hrest hls.symm)⟩
      | cut faults =>
        rw [tokensFrom_front 0 hgap hfront, tokensFrom] at hjson
        exact absurd hjson json_assemble_cut
    · rw [tokensFrom_front 0 hgap hfront, tokensFrom] at hjson
      exact absurd hjson json_assemble_stray

end

/-- A number that is read back from its text is read from its numeral. -/
lemma Number.ReadsBack.isRead {n : Number} (hn : ∀ c ∈ n.text, Numeral.isNumeralChar c = true)
    (h : n.ReadsBack) : n.IsRead := by
  obtain ⟨hjson, htrailing⟩ := readText_eq_ok.1 h
  have htokens : tokens (Json.number n).text = tokensFrom 0 [] n.text := by
    rw [tokens, Json.text, String.toList_ofList]
    rfl
  rw [Json.read, htokens] at hjson htrailing
  exact exists_scanNumeral hn hjson htrailing

/-- Every integer in range is read as it was written; of a double this has to be known. -/
lemma isRead_of_inRange {n : Number} (hn : n.InRange) (h : ∀ x, n = .real x → n.ReadsBack) :
    n.IsRead := by
  cases n with
  | integer n => exact scanNumeral_integerText hn
  | real x => exact (h x rfl).isRead (isNumeralChar_of_mem_text hn)

/-- **What a reader makes of the documents that hold a value, it makes of either text of the value.** -/
theorem readText_of_reads {read : Reader α} {v : Json} {a : α} (hv : ∀ n ∈ v.numbers, n.IsRead)
    (h : ReadsAs read depthLimit v a) :
    readText read v.text = .ok a ∧ readText read v.prettyText = .ok a := by
  have htext : ∀ text, Spells v.tokenList text.toList → readText read text = .ok a := by
    intro text hspells
    obtain ⟨d, hd, htext⟩ := exists_read_of_spells hspells
    rw [readText_eq_ok, htext]
    exact ⟨h d hd, rfl⟩
  exact ⟨htext _ (spells_text hv).1, htext _ (spells_text hv).2⟩

end Formulary.Json
