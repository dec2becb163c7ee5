import Formulary.Json.Document
import Formulary.Proofs.Json.Numbers
/-!
# The numbers of documents

Every number that is read from a text is in range (`inRange_read`): a token is, since a numeral is, and
no step of the machine makes a number.
-/

namespace Formulary.Json

/-! ## What is in range -/

mutual

/-- All numbers of a document are in range. -/
def Document.InRange : Document → Prop
  | .number (.ok n) _ => n.InRange
  | .array _ items => items.InRange
  | .object _ members => members.InRange
  | _ => True

/-- All numbers of items are in range. -/
def Items.InRange : Items → Prop
  | .item d _ rest => d.InRange ∧ rest.InRange
  | _ => True

/-- All numbers of the values of members are in range. -/
def Members.InRange : Members → Prop
  | .member _ _ _ d _ rest => d.InRange ∧ rest.InRange
  | _ => True

end

/-- A token that is a number is in range. -/
def Token.InRange : Token → Prop
  | .number (.ok n) => n.InRange
  | _ => True

/-- All numbers of an open array or object are in range. -/
def Frame.InRange : Frame → Prop
  | .array _ before => ∀ entry ∈ before, entry.1.InRange
  | .member _ before _ _ _ => ∀ m ∈ before, m.value.InRange

/-- All numbers of what has been read where the machine stands are in range. -/
def Want.InRange : Want → Prop
  | .value => True
  | .item _ before => ∀ entry ∈ before, entry.1.InRange
  | .key _ before | .colon _ before _ _ => ∀ m ∈ before, m.value.InRange
  | .after d => d.InRange

/-- All numbers of what a move leads to are in range. -/
def Move.InRange : Move → Prop
  | .go want stack => want.InRange ∧ ∀ f ∈ stack, f.InRange
  | .stop d stack => d.InRange ∧ ∀ f ∈ stack, f.InRange

/-! ## Arrays and objects -/

lemma inRange_arrayOf (start : Nat) {before : List (Document × Nat)} {rest : Items}
    (hbefore : ∀ entry ∈ before, entry.1.InRange) (hrest : rest.InRange) :
    (arrayOf start before rest).InRange := by
  induction before generalizing rest with
  | nil => exact hrest
  | cons entry before ih =>
    obtain ⟨hentry, hbefore⟩ := List.forall_mem_cons.1 hbefore
    exact @ih (.item entry.1 entry.2 rest) hbefore ⟨hentry, hrest⟩

lemma inRange_objectOf (start : Nat) {before : List Member} {rest : Members}
    (hbefore : ∀ m ∈ before, m.value.InRange) (hrest : rest.InRange) :
    (objectOf start before rest).InRange := by
  induction before generalizing rest with
  | nil => exact hrest
  | cons m before ih =>
    obtain ⟨hm, hbefore⟩ := List.forall_mem_cons.1 hbefore
    exact @ih (.member m.key m.keyStop m.colon m.value m.resume rest) hbefore ⟨hm, hrest⟩

lemma inRange_abandon {d : Document} {stack : List Frame} (hd : d.InRange)
    (hstack : ∀ f ∈ stack, f.InRange) : (abandon d stack).InRange := by
  induction stack generalizing d with
  | nil => exact hd
  | cons f stack ih =>
    obtain ⟨hf, hframes⟩ := List.forall_mem_cons.1 hstack
    cases f with
    | array start before =>
      exact ih (inRange_arrayOf start (List.forall_mem_cons.2 ⟨hd, hf⟩) trivial) hframes
    | member start before key keyStop colon =>
      exact ih (inRange_objectOf start (List.forall_mem_cons.2 ⟨hd, hf⟩) trivial) hframes

/-! ## Moves -/

section
variable {a : Ahead} {stack : List Frame} {start : Nat}

lemma Ahead.inRange_value (ha : ∀ l ∈ a.lexeme?, l.token.InRange) : a.value.InRange := by
  unfold Ahead.value
  split
  case h_3 n place hl =>
    have hn := ha _ hl
    cases n with
    | ok n => exact hn
    | error fault => trivial
  all_goals trivial

lemma inRange_valueMove (ha : ∀ l ∈ a.lexeme?, l.token.InRange) (hstack : ∀ f ∈ stack, f.InRange) :
    (valueMove stack a).InRange := by
  have hvalue := Ahead.inRange_value ha
  unfold valueMove
  split
  · exact ⟨List.forall_mem_nil _, hstack⟩
  · exact ⟨List.forall_mem_nil _, hstack⟩
  · split
    · exact ⟨trivial, hstack⟩
    · exact ⟨trivial, hstack⟩
    · exact ⟨hvalue, hstack⟩

lemma inRange_itemMove {before : List (Document × Nat)} (ha : ∀ l ∈ a.lexeme?, l.token.InRange)
    (hbefore : ∀ entry ∈ before, entry.1.InRange) (hstack : ∀ f ∈ stack, f.InRange) :
    (itemMove start before stack a).InRange := by
  unfold itemMove
  split
  · exact ⟨inRange_arrayOf start (List.forall_mem_nil _) trivial, hstack⟩
  · exact ⟨inRange_arrayOf start (List.forall_mem_nil _) trivial, hstack⟩
  · exact ⟨inRange_arrayOf start hbefore trivial, hstack⟩
  · exact inRange_valueMove ha (List.forall_mem_cons.2 ⟨hbefore, hstack⟩)

lemma inRange_keyMove {before : List Member} (hbefore : ∀ m ∈ before, m.value.InRange)
    (hstack : ∀ f ∈ stack, f.InRange) : (keyMove start before stack a).InRange := by
  unfold keyMove
  dsimp only
  split
  · exact ⟨hbefore, hstack⟩
  · exact ⟨inRange_objectOf start (List.forall_mem_nil _) trivial, hstack⟩
  all_goals exact ⟨inRange_objectOf start hbefore trivial, hstack⟩

lemma inRange_colonMove {before : List Member} {key : Except Fault String} {keyStop : Nat}
    (hbefore : ∀ m ∈ before, m.value.InRange) (hstack : ∀ f ∈ stack, f.InRange) :
    (colonMove start before key keyStop stack a).InRange := by
  unfold colonMove
  split <;> exact ⟨trivial, List.forall_mem_cons.2 ⟨hbefore, hstack⟩⟩

lemma inRange_afterItemMove {before : List (Document × Nat)} {d : Document} {following : Nat}
    (hd : d.InRange) (hbefore : ∀ entry ∈ before, entry.1.InRange)
    (hstack : ∀ f ∈ stack, f.InRange) :
    (afterItemMove start before d stack a following).InRange := by
  unfold afterItemMove
  split
  · exact ⟨List.forall_mem_cons.2 ⟨hd, hbefore⟩, hstack⟩
  all_goals exact ⟨inRange_arrayOf start (List.forall_mem_cons.2 ⟨hd, hbefore⟩) trivial, hstack⟩

lemma inRange_afterMemberMove {before : List Member} {m : Member} (hm : m.value.InRange)
    (hbefore : ∀ m ∈ before, m.value.InRange) (hstack : ∀ f ∈ stack, f.InRange) :
    (afterMemberMove start before m stack a).InRange := by
  unfold afterMemberMove
  split
  · exact ⟨List.forall_mem_cons.2 ⟨hm, hbefore⟩, hstack⟩
  all_goals exact ⟨inRange_objectOf start (List.forall_mem_cons.2 ⟨hm, hbefore⟩) trivial, hstack⟩

/-- No step of the machine makes a number. -/
theorem inRange_move {want : Want} (following : Nat) (ha : ∀ l ∈ a.lexeme?, l.token.InRange)
    (hwant : want.InRange) (hstack : ∀ f ∈ stack, f.InRange) :
    (move want stack a following).InRange := by
  cases want with
  | value => exact inRange_valueMove ha hstack
  | item start before => exact inRange_itemMove ha hwant hstack
  | key start before => exact inRange_keyMove hwant hstack
  | colon start before key keyStop => exact inRange_colonMove hwant hstack
  | after d =>
    cases stack with
    | nil => exact ⟨hwant, hstack⟩
    | cons f stack =>
      obtain ⟨hf, hframes⟩ := List.forall_mem_cons.1 hstack
      cases f with
      | array start before => exact inRange_afterItemMove hwant hf hframes
      | member start before key keyStop colon => exact inRange_afterMemberMove hwant hf hframes

lemma Move.inRange_abandoned {m : Move} (h : m.InRange) : m.abandoned.InRange := by
  cases m with
  | go want stack => exact inRange_abandon trivial h.2
  | stop d stack => exact inRange_abandon h.1 h.2

/-- The machine reads the numbers that are among the tokens. -/
lemma inRange_assemble {size : Nat} {want : Want} {ls : List Lexeme}
    (hls : ∀ l ∈ ls, l.token.InRange) (hwant : want.InRange) (hstack : ∀ f ∈ stack, f.InRange) :
    (assemble size want stack ls).root.InRange := by
  fun_induction assemble size want stack ls with
  | case1 d => exact hwant
  | case2 d l ls => exact hwant
  | case3 want stack hopen => exact Move.inRange_abandoned (inRange_move _ (by simp) hwant hstack)
  | case4 want stack l ls hopen want' stack' hmove ih =>
    obtain ⟨hl, hls⟩ := List.forall_mem_cons.1 hls
    have hstep := inRange_move (a := ⟨size, some l⟩) (Ahead.position ⟨size, ls.head?⟩)
      (by simpa using hl) hwant hstack
    rw [hmove] at hstep
    exact ih hls hstep.1 hstep.2
  | case5 want stack l ls hopen d stack' hmove =>
    obtain ⟨hl, hls⟩ := List.forall_mem_cons.1 hls
    have hstep := inRange_move (a := ⟨size, some l⟩) (Ahead.position ⟨size, ls.head?⟩)
      (by simpa using hl) hwant hstack
    rw [hmove] at hstep
    exact inRange_abandon hstep.1 hstep.2

end

/-! ## Texts -/

lemma inRange_of_punctuation? {c : Char} {t : Token} (h : punctuation? c = some t) : t.InRange := by
  unfold punctuation? at h
  split_ifs at h <;> obtain rfl := Option.some.inj h <;> trivial

lemma inRange_of_word? {c : Char} {t : Token} {letters : List Char} (h : word? c = some (t, letters)) :
    t.InRange := by
  unfold word? at h
  split_ifs at h <;> obtain ⟨rfl, -⟩ := Prod.mk.inj (Option.some.inj h) <;> trivial

lemma inRange_quotedFront (position : Nat) (cs : List Char) :
    (quotedFront position cs).1.token.InRange := by
  unfold quotedFront
  dsimp only
  split <;> trivial

lemma inRange_front (position : Nat) (c : Char) (cs : List Char) :
    (front position c cs).1.token.InRange := by
  unfold front
  dsimp only
  split
  · rename_i hc
    exact inRange_of_punctuation? hc
  · rename_i hc
    split
    · exact inRange_of_word? hc
    · trivial
  · split_ifs
    · exact inRange_quotedFront position cs
    · split
      · rename_i value stop rest hscan
        cases value with
        | ok n => exact Number.inRange_of_scanNumeral hscan
        | error fault => trivial
      · trivial
    · trivial

lemma inRange_tokensFrom {position : Nat} {before : List Lexeme} {cs : List Char}
    (hbefore : ∀ l ∈ before, l.token.InRange) :
    ∀ l ∈ tokensFrom position before cs, l.token.InRange := by
  fun_induction tokensFrom position before cs with
  | case1 position before => exact fun l hl => hbefore l (List.mem_reverse.1 hl)
  | case2 position before c cs hgap ih => exact ih hbefore
  | case3 position before c cs hgap hlength lexeme ih =>
    exact ih (List.forall_mem_cons.2 ⟨inRange_front position c cs, hbefore⟩)

/-- **All numbers of a text that is read are in range.** -/
theorem inRange_read (text : String) : (read text).root.InRange :=
  inRange_assemble (inRange_tokensFrom (List.forall_mem_nil _)) trivial (List.forall_mem_nil _)

end Formulary.Json
