import Formulary.Program.Interchange
import Formulary.Proofs.Json.Records
/-!
# Programs saved and read again

A program that was read can be saved (`savable_of_ofJsonText`): its numbers are finite, and its trees
are values that are read as they are and taken for nothing else. A program that can be saved is read
back unchanged from its text (`Savable.ofJsonText_toJson`), as far as the doubles in the text are.
-/

namespace Formulary

open Json Result

variable {depth : Nat}

lemma forall_mem_getD {α : Type} {o : Option (List α)} {R : α → Prop} (h : ∀ as ∈ o, ∀ a ∈ as, R a) :
    ∀ a ∈ o.getD [], R a := by
  cases o with
  | none => exact List.forall_mem_nil _
  | some as => exact h as rfl

lemma join_map_some {α : Type} (o : Option α) : (o.map some).join = o := by
  cases o <;> rfl

/-! ## Sources with a version -/

lemma StoredSource.reads_version : ReadsAs
    (fun depth d => do
      let v ← Reader.unsigned "u64" depth d
      if v = languageVersion then return v
      else mismatched (.unsupportedVersion v languageVersion)) depth (.ofNat languageVersion)
    languageVersion := by
  intro d hd
  dsimp only
  rw [reads_unsigned "u64" languageVersion d hd]
  rfl

/-- A stored source is read in either order of its members. -/
lemma StoredSource.reads_sorted (text : String) :
    ReadsAs reader (depth + 1) (.object [("source", .string text), ("version", .ofNat languageVersion)])
      text := by
  refine reads_record ?_
  refine Fills.cons rfl rfl (reads_filling (reads_string text)) ?_
  refine Fills.cons rfl rfl (reads_filling reads_version) ?_
  exact Fills.nil rfl

lemma StoredSource.reads_json (text : String) : ReadsAs Reader.json (depth + 1) (toJson text)
    (.object [("source", .string text), ("version", .ofNat languageVersion)]) := by
  have hinsert : insertMembers [] [("version", .ofNat languageVersion), ("source", .string text)] =
      [("source", .string text), ("version", .ofNat languageVersion)] :=
    if_pos (show "source" < "version" by decide)
  have hread : ∀ m ∈ [("version", ofNat languageVersion), ("source", Json.string text)],
      ReadsAs Reader.json depth m.2 m.2 := by
    intro m hm
    rcases List.mem_pair.1 hm with rfl | rfl
    · exact Json.reads_json (.number ⟨by decide, by decide⟩)
    · exact Json.reads_json .string
  exact hinsert ▸ reads_json_object hread

/-! ## Definitions -/

namespace Definition

/-- A tree that the reader of steps makes: it is read as it is, and is neither `null` nor a source. -/
def SavableInStep (depth : Nat) : Definition → Prop
  | source _ => True
  | tree v => Settled depth v ∧ v ≠ .null ∧ v.isObject = false

/-- A tree that the reader of outputs makes: no string either, which would be a source. -/
def SavableInOutput (depth : Nat) : Definition → Prop
  | source _ => True
  | tree v => Settled depth v ∧ v ≠ .null ∧ v.isObject = false ∧ ∀ s, v ≠ .string s

lemma savableInStep_of_stepReader {d : Document} {x : Definition} (hd : d.InRange)
    (hnull : ∀ place, d ≠ .null place) (h : stepReader depth d = .ok x) : x.SavableInStep depth := by
  obtain ⟨v, hv, h⟩ := bind_eq_ok.1 h
  split at h
  · obtain ⟨text, -, rfl⟩ := map_eq_ok.1 h
    trivial
  · rename_i hobject
    obtain rfl := Except.ok.inj h
    exact ⟨settled_of_json hd hv, ne_null_of_json hnull hv, by simpa using hobject⟩

lemma savableInOutput_of_outputReader {d : Document} {x : Definition} (hd : d.InRange)
    (hnull : ∀ place, d ≠ .null place) (h : outputReader depth d = .ok x) :
    x.SavableInOutput depth := by
  obtain ⟨v, hv, hchoose⟩ := exists_of_untagged h
  split at hchoose
  · obtain rfl := Option.some.inj hchoose
    trivial
  · exact absurd hchoose (by simp)
  · rename_i hstring hobject
    obtain rfl := Option.some.inj hchoose
    refine ⟨settled_of_json hd hv, ne_null_of_json hnull hv, ?_, hstring⟩
    cases v with
    | object ms => exact absurd rfl (hobject ms)
    | _ => rfl

lemma reads_step {x : Definition} (h : x.SavableInStep (depth + 1)) :
    x.toStepJson ≠ .null ∧ ReadsAs stepReader (depth + 1) x.toStepJson x := by
  cases x with
  | source text =>
    refine ⟨Json.noConfusion, fun d hd => ?_⟩
    have hsource : Json.readValue StoredSource.reader
        (.object [("source", .string text), ("version", .ofNat languageVersion)]) = .ok text :=
      mapError_eq_ok.2 (StoredSource.reads_sorted text _ (holds_toDocument _))
    rw [stepReader, StoredSource.reads_json text d hd, ok_bind,
      if_pos (show (object _).isObject = true from rfl), hsource]
    rfl
  | tree v =>
    obtain ⟨hsettled, hnull, hobject⟩ := h
    refine ⟨hnull, fun d hd => ?_⟩
    rw [stepReader, Json.reads_json hsettled d hd, ok_bind, if_neg (by simp [hobject])]
    rfl

lemma reads_output {x : Definition} (h : x.SavableInOutput depth) :
    x.toOutputJson ≠ .null ∧ ReadsAs outputReader depth x.toOutputJson x := by
  cases x with
  | source text => exact ⟨Json.noConfusion, reads_untagged (Json.reads_json .string) rfl⟩
  | tree v =>
    obtain ⟨hsettled, hnull, hobject, hstring⟩ := h
    refine ⟨hnull, reads_untagged (Json.reads_json hsettled) ?_⟩
    cases v with
    | string s => exact absurd rfl (hstring s)
    | object ms => exact absurd hobject (by simp [isObject])
    | _ => rfl

lemma inRange_toStepJson {x : Definition} (h : x.SavableInStep depth) : x.toStepJson.InRange := by
  cases x with
  | source text =>
    refine inRange_object (List.forall_mem_cons.2 ⟨?_, List.forall_mem_singleton.2 ?_⟩)
    · exact inRange_number ⟨by decide, by decide⟩
    · exact inRange_string text
  | tree v => exact h.1.inRange

lemma inRange_toOutputJson {x : Definition} (h : x.SavableInOutput depth) :
    x.toOutputJson.InRange := by
  cases x with
  | source text => exact inRange_string text
  | tree v => exact h.1.inRange

end Definition

/-! ## Numbers to start from -/

namespace Initial

/-- Nothing but a finite number or a flag is read. -/
def Savable (x : Initial) : Prop :=
  ∀ y, x = .number y → y.isFinite = true

lemma yields_reader : Yields reader depth Savable := by
  intro d x hd h
  obtain ⟨v, hv, hchoose⟩ := exists_of_untagged h
  split at hchoose
  · rintro y rfl
    exact absurd hchoose (by simp)
  · rintro y rfl
    obtain rfl := number.inj (Option.some.inj hchoose)
    cases settled_of_json hd hv with
    | number hn => exact isFinite_toFloat hn
  · exact absurd hchoose (by simp)

lemma reads_reader {x : Initial} (h : x.Savable) :
    x.toJson ≠ .null ∧ ReadsAs reader depth x.toJson x := by
  cases x with
  | flag b => exact ⟨Json.noConfusion, reads_untagged (Json.reads_json .bool) rfl⟩
  | number x =>
    have hx : x.isFinite = true := h x rfl
    refine ⟨ofFloat_ne_null hx, ?_⟩
    rw [toJson, ofFloat, if_pos hx]
    exact reads_untagged (Json.reads_json (.number hx)) rfl

lemma inRange_toJson (x : Initial) : x.toJson.InRange := by
  cases x with
  | flag b => exact inRange_bool b
  | number x => exact inRange_ofFloat x

end Initial

namespace Program

/-! ## Inputs -/

namespace Input

/-- The numbers of an input are finite. -/
structure Savable (i : Input) : Prop where
  step : ∀ x ∈ i.step, x.isFinite = true
  initial : ∀ x ∈ i.initial, x.Savable

/-- The numbers that have been read of an input are finite. -/
structure Draft.Savable (draft : Draft) : Prop where
  step : ∀ o ∈ draft.step, ∀ x ∈ o, x.isFinite = true
  initial : ∀ o ∈ draft.initial, ∀ x ∈ o, x.Savable

lemma yields_reader : Yields reader (depth + 1) Savable := by
  refine @yields_record Input Draft depth shape Draft.Savable Savable ?fields ?build ?blank
  case blank => exact ⟨by simp [shape], by simp [shape]⟩
  case fields =>
    simp only [shape, List.forall_mem_cons]
    refine ⟨?_, ?_, ?_, ?_, ?_, ?step, ?initial, List.forall_mem_nil _⟩
    case step =>
      exact yields_filling (yields_option fun hd _ h => yields_float hd h)
        fun hb hdraft => ⟨by simpa using hb, hdraft.initial⟩
    case initial =>
      exact yields_filling (yields_option fun hd _ h => Initial.yields_reader hd h)
        fun hb hdraft => ⟨hdraft.step, by simpa using hb⟩
    all_goals exact yields_filling (yields_any _) fun _ hdraft => ⟨hdraft.step, hdraft.initial⟩
  case build =>
    intro draft i hdraft h
    obtain ⟨t, -, h⟩ := bind_eq_ok.1 h
    obtain rfl := Except.ok.inj h
    exact ⟨fun x hx => hdraft.step _ (Option.join_eq_some_iff.1 hx) x rfl,
      fun x hx => hdraft.initial _ (Option.join_eq_some_iff.1 hx) x rfl⟩

lemma reads_reader {i : Input} (h : i.Savable) : ReadsAs reader (depth + 1) i.toJson i := by
  refine reads_record ?_
  simp only [List.append_assoc, List.cons_append, List.nil_append]
  refine Fills.cons rfl rfl (reads_filling (reads_string i.name)) ?_
  refine Fills.cons rfl rfl (reads_filling (reads_string i.description)) ?_
  refine Fills.cons rfl rfl (reads_filling (reads_enumeration i.type.lookup_word)) ?_
  refine Fills.memberOf ⟨some i.name, some i.description, some i.type, i.group.map some, none, none,
    none⟩ rfl rfl (fun s _ => reads_filling (reads_some Json.noConfusion (reads_string s)))
    (by cases i.group <;> rfl) ?_
  refine Fills.memberOf ⟨some i.name, some i.description, some i.type, i.group.map some,
    i.units.map some, none, none⟩ rfl rfl
    (fun s _ => reads_filling (reads_some Json.noConfusion (reads_string s)))
    (by cases i.units <;> rfl) ?_
  refine Fills.memberOf ⟨some i.name, some i.description, some i.type, i.group.map some,
    i.units.map some, i.step.map some, none⟩ rfl rfl
    (fun x hx => reads_filling (reads_some (ofFloat_ne_null (h.step x hx)) (reads_float (h.step x hx))))
    (by cases i.step <;> rfl) ?_
  refine Fills.cons rfl rfl (reads_filling (reads_ofOption fun x hx =>
    Initial.reads_reader (h.initial x hx))) (Fills.nil ?_)
  simp only [shape, Shape.demanded, join_map_some]
  rfl

lemma inRange_toJson (i : Input) : i.toJson.InRange := by
  refine inRange_object ?_
  simp only [List.forall_mem_append, List.forall_mem_cons]
  exact ⟨⟨⟨⟨⟨inRange_string _, inRange_string _, inRange_string _, List.forall_mem_nil _⟩,
    inRange_memberOf_string i.group _⟩, inRange_memberOf_string i.units _⟩,
    inRange_memberOf (fun x _ => inRange_ofFloat x) _⟩,
    inRange_ofOption fun x _ => x.inRange_toJson, List.forall_mem_nil _⟩

end Input

/-! ## Steps -/

namespace Step

/-- The definition of a step can be saved. -/
structure Savable (depth : Nat) (s : Step) : Prop where
  definition : ∀ x ∈ s.definition, x.SavableInStep depth

/-- The definition that has been read of a step can be saved. -/
structure Draft.Savable (depth : Nat) (draft : Draft) : Prop where
  definition : ∀ o ∈ draft.definition, ∀ x ∈ o, x.SavableInStep depth

lemma yields_reader : Yields reader (depth + 1) (Savable depth) := by
  refine @yields_record Step Draft depth shape (Draft.Savable depth) (Savable depth)
    ?fields ?build ?blank
  case blank => exact ⟨by simp [shape]⟩
  case fields =>
    simp only [shape, List.forall_mem_cons]
    refine ⟨?_, ?_, ?definition, List.forall_mem_nil _⟩
    case definition =>
      exact yields_filling (yields_option Definition.savableInStep_of_stepReader)
        fun hb _ => ⟨by simpa using hb⟩
    all_goals exact yields_filling (yields_any _) fun _ hdraft => ⟨hdraft.definition⟩
  case build =>
    intro draft s hdraft h
    obtain rfl := Except.ok.inj h
    exact ⟨fun x hx => hdraft.definition _ (Option.join_eq_some_iff.1 hx) x rfl⟩

lemma reads_reader {s : Step} (h : s.Savable (depth + 1)) :
    ReadsAs reader (depth + 2) s.toJson s := by
  refine reads_record ?_
  refine Fills.cons rfl rfl (reads_filling (reads_string s.name)) ?_
  refine Fills.cons rfl rfl (reads_filling (reads_string s.description)) ?_
  refine Fills.cons rfl rfl (reads_filling (reads_ofOption fun x hx =>
    Definition.reads_step (h.definition x hx))) (Fills.nil rfl)

lemma inRange_toJson {s : Step} (h : s.Savable depth) : s.toJson.InRange := by
  refine inRange_object ?_
  simp only [List.forall_mem_cons]
  exact ⟨inRange_string _, inRange_string _,
    inRange_ofOption fun x hx => Definition.inRange_toStepJson (h.definition x hx),
    List.forall_mem_nil _⟩

end Step

/-! ## Outputs -/

namespace Output

/-- The definition of an output can be saved. -/
structure Savable (depth : Nat) (o : Output) : Prop where
  value : ∀ x ∈ o.value, x.SavableInOutput depth

/-- The definition that has been read of an output can be saved. -/
structure Draft.Savable (depth : Nat) (draft : Draft) : Prop where
  value : ∀ o ∈ draft.value, ∀ x ∈ o, x.SavableInOutput depth

lemma yields_reader : Yields reader (depth + 1) (Savable depth) := by
  refine @yields_record Output Draft depth shape (Draft.Savable depth) (Savable depth)
    ?fields ?build ?blank
  case blank => exact ⟨by simp [shape]⟩
  case fields =>
    simp only [shape, List.forall_mem_cons]
    refine ⟨?_, ?_, ?_, ?_, ?_, ?value, List.forall_mem_nil _⟩
    case value =>
      exact yields_filling (yields_option Definition.savableInOutput_of_outputReader)
        fun hb _ => ⟨by simpa using hb⟩
    all_goals exact yields_filling (yields_any _) fun _ hdraft => ⟨hdraft.value⟩
  case build =>
    intro draft o hdraft h
    obtain rfl := Except.ok.inj h
    exact ⟨fun x hx => hdraft.value _ (Option.join_eq_some_iff.1 hx) x rfl⟩

lemma reads_reader {o : Output} (h : o.Savable depth) : ReadsAs reader (depth + 1) o.toJson o := by
  refine reads_record ?_
  simp only [List.append_assoc, List.cons_append, List.nil_append]
  refine Fills.cons rfl rfl (reads_filling (reads_string o.name)) ?_
  refine Fills.cons rfl rfl (reads_filling (reads_string o.description)) ?_
  refine Fills.memberOf ⟨some o.name, some o.description, o.group.map some, none, none, none⟩ rfl rfl
    (fun s _ => reads_filling (reads_some Json.noConfusion (reads_string s)))
    (by cases o.group <;> rfl) ?_
  refine Fills.cons rfl rfl (reads_filling (reads_enumeration o.type.lookup_word)) ?_
  refine Fills.memberOf ⟨some o.name, some o.description, o.group.map some, some o.type,
    o.units.map some, none⟩ rfl rfl
    (fun s _ => reads_filling (reads_some Json.noConfusion (reads_string s)))
    (by cases o.units <;> rfl) ?_
  refine Fills.cons rfl rfl (reads_filling (reads_ofOption fun x hx =>
    Definition.reads_output (h.value x hx))) (Fills.nil ?_)
  simp only [shape, join_map_some]
  rfl

lemma inRange_toJson {o : Output} (h : o.Savable depth) : o.toJson.InRange := by
  refine inRange_object ?_
  simp only [List.forall_mem_append, List.forall_mem_cons]
  exact ⟨⟨⟨⟨⟨inRange_string _, inRange_string _, List.forall_mem_nil _⟩,
    inRange_memberOf_string o.group _⟩, inRange_string _, List.forall_mem_nil _⟩,
    inRange_memberOf_string o.units _⟩,
    inRange_ofOption fun x hx => Definition.inRange_toOutputJson (h.value x hx), List.forall_mem_nil _⟩

end Output

/-! ## Programs -/

/-- A program whose text is read back: its numbers are finite, and its trees lie no deeper than allowed
and are taken for nothing else. -/
structure Savable (depth : Nat) (p : Program) : Prop where
  inputs : ∀ i ∈ p.inputs, i.Savable
  steps : ∀ s ∈ p.steps, s.Savable depth
  outputs : ∀ o ∈ p.outputs, o.Savable depth

/-- What has been read of a program can be saved. -/
structure Draft.Savable (depth : Nat) (draft : Draft) : Prop where
  inputs : ∀ is ∈ draft.inputs, ∀ i ∈ is, i.Savable
  steps : ∀ ss ∈ draft.steps, ∀ s ∈ ss, s.Savable depth
  outputs : ∀ os ∈ draft.outputs, ∀ o ∈ os, o.Savable depth

lemma yields_reader : Yields reader (depth + 3) (Savable depth) := by
  refine @yields_record Program Draft (depth + 2) shape (Draft.Savable depth) (Savable depth)
    ?fields ?build ?blank
  case blank => exact ⟨by simp [shape], by simp [shape], by simp [shape]⟩
  case fields =>
    simp only [shape, List.forall_mem_cons]
    refine ⟨?inputs, ?steps, ?outputs, List.forall_mem_nil _⟩
    case inputs =>
      exact yields_filling (yields_list Input.yields_reader)
        fun hb hdraft => ⟨by simpa using hb, hdraft.steps, hdraft.outputs⟩
    case steps =>
      exact yields_filling (yields_list Step.yields_reader)
        fun hb hdraft => ⟨hdraft.inputs, by simpa using hb, hdraft.outputs⟩
    case outputs =>
      exact yields_filling (yields_list Output.yields_reader)
        fun hb hdraft => ⟨hdraft.inputs, hdraft.steps, by simpa using hb⟩
  case build =>
    intro draft p hdraft h
    obtain rfl := Except.ok.inj h
    exact ⟨forall_mem_getD hdraft.inputs, forall_mem_getD hdraft.steps,
      forall_mem_getD hdraft.outputs⟩

lemma reads_reader {p : Program} (h : p.Savable (depth + 1)) :
    ReadsAs reader (depth + 4) p.toJson p := by
  refine reads_record ?_
  refine Fills.cons rfl rfl (reads_filling (reads_list fun i hi =>
    Input.reads_reader (h.inputs i hi))) ?_
  refine Fills.cons rfl rfl (reads_filling (reads_list fun s hs =>
    Step.reads_reader (h.steps s hs))) ?_
  exact Fills.cons rfl rfl (reads_filling (reads_list fun o ho =>
    Output.reads_reader (h.outputs o ho))) (Fills.nil rfl)

lemma inRange_toJson {p : Program} (h : p.Savable depth) : p.toJson.InRange := by
  refine inRange_object ?_
  simp only [List.forall_mem_cons]
  refine ⟨inRange_array ?_, inRange_array ?_, inRange_array ?_, List.forall_mem_nil _⟩
  · exact List.forall_mem_map.2 fun i _ => i.inRange_toJson
  · exact List.forall_mem_map.2 fun s hs => Step.inRange_toJson (h.steps s hs)
  · exact List.forall_mem_map.2 fun o ho => Output.inRange_toJson (h.outputs o ho)

/-- How deep arrays and objects may lie in what is read of an input, a step or an output: it lies in a
record, in a list, in a program. -/
def partDepth : Nat := depthLimit - 3

/-- A program that has been read can be saved. -/
theorem savable_of_ofJsonText {text : String} {p : Program} (h : ofJsonText text = .ok p) :
    p.Savable partDepth :=
  @yields_reader partDepth _ _ (inRange_read text) (readText_eq_ok.1 h).1

/-- A program that can be saved is what is read from either of its texts. -/
theorem Savable.ofJsonText_toJson {p : Program} (h : p.Savable partDepth)
    (hreal : ∀ x, .real x ∈ p.toJson.numbers → x.isFinite = true → (Number.real x).ReadsBack) :
    ofJsonText p.toJson.text = .ok p ∧ ofJsonText p.toJson.prettyText = .ok p := by
  have hrange := inRange_toJson h
  refine readText_of_reads (fun n hn => isRead_of_inRange (hrange n hn) ?_) (reads_reader h)
  rintro x rfl
  exact hreal x hn (hrange _ hn)

/-- **A program that was read from any text is read back unchanged from its own, on one line or
indented**, if each finite double in it is read back from the numeral that is written for it. -/
theorem ofJsonText_unchanged {text : String} {p : Program} (h : ofJsonText text = .ok p)
    (hreal : ∀ x, .real x ∈ p.toJson.numbers → x.isFinite = true → (Number.real x).ReadsBack) :
    ofJsonText p.toJson.text = .ok p ∧ ofJsonText p.toJson.prettyText = .ok p :=
  (savable_of_ofJsonText h).ofJsonText_toJson hreal

/-! ## A program written tersely -/

/-- A step with other names for its members, and neither inputs nor outputs. -/
def terse : String :=
  "\x7b\"steps\":[\x7b\"expr\":0.5,\"let\":\"a\"\x7d]\x7d"

/-- A program of one step, which is a number. -/
def half : Program :=
  ⟨[], [.of "a" (.tree (.number (.real 0.5)))], []⟩

lemma isRead_half : (Number.real 0.5).IsRead := by
  have htext : (Number.real 0.5).text = ['0', '.', '5'] := by decide +kernel
  have hvalue : divideByTens (Float.ofNat 5) 1 = 0.5 := by
    rw [divideByTens]
    rfl
  have hscan : scanNumeral 0 ['0', '.', '5'] =
      .found (.ok (.real (divideByTens (Float.ofNat 5) 1))) 3 [] := rfl
  exact ⟨3, by rw [htext, hscan, hvalue]⟩

lemma readsBack_half : (Number.real 0.5).ReadsBack := by
  have hrange : (Number.real 0.5).InRange := rfl
  refine (readText_of_reads (fun n hn => ?_) (Json.reads_json (.number hrange))).1
  exact mem_numbers_number.1 hn ▸ isRead_half

lemma ofJsonText_terse : ofJsonText terse = .ok half := by
  let step : Json := .object [("expr", .number (.real 0.5)), ("let", .string "a")]
  have htree : ReadsAs Definition.stepReader 124 (.number (.real 0.5)) (.tree (.number (.real 0.5))) :=
    (Definition.reads_step (x := .tree (.number (.real 0.5)))
      ⟨.number rfl, Json.noConfusion, rfl⟩).2
  have hstep : ReadsAs Step.reader 125 step (.of "a" (.tree (.number (.real 0.5)))) := by
    refine reads_record ?_
    refine Fills.cons rfl rfl (reads_filling (reads_some Json.noConfusion htree)) ?_
    exact Fills.cons rfl rfl (reads_filling (reads_string "a")) (Fills.nil rfl)
  have hsteps : ReadsAs (Reader.list Step.reader) 126 (.array [step]) half.steps :=
    @reads_list _ 125 Step.reader (fun _ => step) half.steps (List.forall_mem_singleton.2 hstep)
  have hreads : ReadsAs reader depthLimit (.object [("steps", .array [step])]) half :=
    reads_record (Fills.cons rfl rfl (reads_filling hsteps) (Fills.nil rfl))
  have htext : terse = Json.text (.object [("steps", .array [step])]) := by decide +kernel
  rw [htext]
  refine (readText_of_reads (fun n hn => ?_) hreads).1
  have hn : n = .real 0.5 := by simpa [step] using hn
  exact hn ▸ isRead_half

theorem ofJsonText_terse_unchanged :
    ofJsonText terse = .ok half ∧ ofJsonText half.toJson.text = .ok half ∧
      ofJsonText half.toJson.prettyText = .ok half := by
  refine ⟨ofJsonText_terse, ofJsonText_unchanged ofJsonText_terse fun x hx _ => ?_⟩
  have hx : x = 0.5 := by
    simpa [half, toJson, Step.toJson, Step.of, ofOption, Definition.toStepJson] using hx
  exact hx ▸ readsBack_half

end Program

end Formulary
