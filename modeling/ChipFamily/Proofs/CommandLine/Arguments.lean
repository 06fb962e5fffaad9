import ChipFamily.CommandLine.Options
import ChipFamily.Proofs.Except

namespace ChipFamily.CommandLine

/-- The arguments in which a setting is written. -/
inductive Setting.Written : List String → Setting → Prop where
  | rom {path : String} (h : isValue path) : Written ["--rom", path] (.rom path)
  | model {name : String} {m : Model} (h : isValue name) (hm : Model.ofName? name = some m) :
      Written ["--model", name] (.model m)
  | noFont : Written ["--no-font"] (.boot .empty)
  | boot {path : String} (h : isValue path) : Written ["--boot", path] (.boot (.file path))
  | dump {text : String} {e : Extent} (h : isValue text) (he : Extent.ofString? text = some e) :
      Written ["--dump", text] (.dump e)
  | query {path : String} (h : isValue path) : Written ["--query", path] (.query path)
  | json : Written ["--json"] .json

/-- Arguments in which settings are written one after the other. -/
inductive Setting.Spelled : List String → List Setting → Prop where
  | nil : Spelled [] []
  | cons {words args : List String} {s : Setting} {ss : List Setting} (h : Written words s)
      (hs : Spelled args ss) : Spelled (words ++ args) (s :: ss)

namespace Setting

theorem written_of_form?_alone {option : String} {s : Setting}
    (h : form? option = some (.alone s)) : Written [option] s := by
  unfold form? at h
  split at h <;> cases h
  · exact .noFont
  · exact .json

theorem written_of_form?_valued {option value : String} {read : String → Except UsageError Setting}
    {s : Setting} (h : form? option = some (.valued read)) (hv : isValue value)
    (hs : read value = .ok s) : Written [option, value] s := by
  unfold form? at h
  split at h <;> cases h
  · cases hs
    exact .rom hv
  · dsimp only at hs
    split at hs <;> cases hs
    exact .model hv ‹_›
  · cases hs
    exact .boot hv
  · dsimp only at hs
    split at hs <;> cases hs
    exact .dump hv ‹_›
  · cases hs
    exact .query hv

theorem spelled_of_settings {args : List String} {ss : List Setting} (h : settings args = .ok ss) :
    Spelled args ss := by
  fun_induction settings args generalizing ss with
  | case1 =>
    cases h
    exact .nil
  | case2 => cases h
  | case3 option args s hform ih =>
    obtain ⟨rest, hrest, he⟩ := exists_of_bind_eq_ok h
    cases he
    exact .cons (written_of_form?_alone hform) (ih hrest)
  | case4 => cases h
  | case5 option read hform value args hv ih =>
    obtain ⟨s, hs, hbind⟩ := exists_of_bind_eq_ok h
    obtain ⟨rest, hrest, he⟩ := exists_of_bind_eq_ok hbind
    cases he
    exact .cons (written_of_form?_valued hform hv hs) (ih hrest)
  | case6 => cases h

end Setting

theorem Setting.Written.eq_cons {words : List String} {s : Setting} (h : Written words s) :
    (∃ a, words = [a]) ∨ ∃ a v, words = [a, v] ∧ isValue v := by
  cases h with
  | noFont | json => exact .inl ⟨_, rfl⟩
  | rom h | boot h | query h => exact .inr ⟨_, _, rfl, h⟩
  | model h | dump h => exact .inr ⟨_, _, rfl, h⟩

variable {α β : Type} {look : String → String → Option α} {put : β → α → β} {args : List String}

/-- What is found at the arguments, each looked at together with the one after it. -/
def gather (look : String → String → Option α) : List String → List α
  | [] => []
  | a :: args => (look a (args.headD "")).toList ++ gather look args

/-- The arguments that come after an option, in order. -/
def valuesOf (option : String) (args : List String) : List String :=
  gather (fun a next => if a = option then some next else none) args

def chosenRom (args : List String) : Option String := (valuesOf "--rom" args).getLast?

def chosenModel (args : List String) : Model :=
  ((valuesOf "--model" args).getLast?.bind Model.ofName?).getD .chip8

def bootAt (a next : String) : Option BootSource :=
  if a = "--boot" then some (.file next) else if a = "--no-font" then some .empty else none

/-- Of the two options that choose a boot image the last one counts. -/
def chosenBoot (args : List String) : BootSource := (gather bootAt args).getLast?.getD .font

theorem length_valuesOf (option : String) (args : List String) :
    (valuesOf option args).length = args.count option := by
  induction args with
  | nil => rfl
  | cons a args ih =>
    rw [valuesOf] at ih ⊢
    rw [gather, List.length_append, ih, List.count_cons, Nat.add_comm]
    by_cases ha : a = option
    · simp [ha]
    · simp [ha]

theorem valuesOf_eq_nil_iff {option : String} : valuesOf option args = [] ↔ option ∉ args := by
  rw [← List.length_eq_zero_iff, length_valuesOf, List.count_eq_zero]

theorem foldl_eq_getLast? (f : α → β) (b : β) (l : List α) :
    l.foldl (fun _ a => f a) b = (l.getLast?.map f).getD b := by
  induction l generalizing b with
  | nil => rfl
  | cons a l ih =>
    rw [List.foldl_cons, ih, List.getLast?_cons]
    cases l.getLast? <;> rfl

theorem foldl_append_eq_map (f : α → β) (b : List β) (l : List α) :
    l.foldl (fun b a => b ++ [f a]) b = b ++ l.map f := by
  induction l generalizing b with
  | nil => exact (List.append_nil b).symm
  | cons a l ih => rw [List.foldl_cons, ih, List.append_assoc, List.map_cons, List.singleton_append]

namespace Options

/-- A field of the options is set by what is found at the arguments, values not among them. -/
structure FoundBy (look : String → String → Option α) (put : β → α → β) (field : Options → β) :
    Prop where
  value (v next : String) : isValue v → look v next = none
  written (words : List String) (s : Setting) (next : String) (o : Options) :
    Setting.Written words s → field (o.set s) =
      (look (words.headD "") (words.tail.headD next)).elim (field o) (put (field o))

variable {field : Options → β} {o : Options}

theorem FoundBy.field_set (hf : FoundBy look put field) {words : List String} {s : Setting}
    (h : Setting.Written words s) (args : List String) (o : Options) :
    (gather look (words ++ args)).foldl put (field o) =
      (gather look args).foldl put (field (o.set s)) := by
  obtain ⟨a, rfl⟩ | ⟨a, v, rfl, hv⟩ := h.eq_cons
  · have hs : field (o.set s) = (look a (args.headD "")).elim (field o) (put (field o)) :=
      hf.written [a] s _ o h
    rw [hs, List.singleton_append, gather]
    cases look a (args.headD "") <;> rfl
  -- The value of an option is looked at too, but nothing is found there.
  · have hs : field (o.set s) = (look a v).elim (field o) (put (field o)) :=
      hf.written [a, v] s "" o h
    rw [hs, List.cons_append, List.singleton_append, gather, gather, hf.value v _ hv]
    cases h : look a v <;> simp [h]

theorem FoundBy.field_foldl (hf : FoundBy look put field) {ss : List Setting}
    (h : Setting.Spelled args ss) (o : Options) :
    field (ss.foldl set o) = (gather look args).foldl put (field o) := by
  induction h generalizing o with
  | nil => rfl
  | cons hw _ ih => rw [List.foldl_cons, ih, hf.field_set hw]

theorem FoundBy.field_eq (hf : FoundBy look put field) (h : ofArgs args = .ok o) :
    field o = (gather look args).foldl put (field {}) := by
  obtain ⟨ss, hs, rfl⟩ := exists_of_map_eq_ok h
  exact hf.field_foldl (Setting.spelled_of_settings hs) {}

/-- A field that one option sets is set by the values of that option, in their order. -/
theorem field_eq_valuesOf (option : String) (put : β → String → β) (field : Options → β)
    (hname : isValue option = false)
    (hset : ∀ words s next o, Setting.Written words s →
      field (set o s) =
        if words.headD "" = option then put (field o) (words.tail.headD next) else field o)
    (h : ofArgs args = .ok o) : field o = (valuesOf option args).foldl put (field {}) := by
  have hf : FoundBy (fun a next => if a = option then some next else none) put field := by
    refine ⟨?_, ?_⟩
    · intro v next hv
      have hne : v ≠ option := by
        rintro rfl
        rw [hname] at hv
        cases hv
      exact if_neg hne
    · intro words s next o hw
      rw [hset words s next o hw]
      split <;> rfl
  exact hf.field_eq h

/-- Options that say what their arguments say. -/
structure Reads (o : Options) (args : List String) : Prop where
  rom : o.rom = chosenRom args
  model : o.model = chosenModel args
  boot : o.boot = chosenBoot args
  dumps : o.dumps.map some = (valuesOf "--dump" args).map Extent.ofString?
  queries : o.queries = valuesOf "--query" args
  json : o.json = decide ("--json" ∈ args)

theorem rom_eq (h : ofArgs args = .ok o) : o.rom = chosenRom args := by
  have hf := field_eq_valuesOf "--rom" (fun _ path => some path) Options.rom (by decide)
    (fun words s next o hw => by cases hw <;> rfl) h
  rw [hf, foldl_eq_getLast?, chosenRom]
  cases (valuesOf "--rom" args).getLast? <;> rfl

theorem model_eq (h : ofArgs args = .ok o) : o.model = chosenModel args := by
  have hf := field_eq_valuesOf "--model" (fun _ name => Model.ofName? name)
    (fun o => some o.model) (by decide)
    (fun words s next o hw => by
      cases hw with
      | model hv hm => exact hm.symm
      | _ => rfl) h
  rw [foldl_eq_getLast?] at hf
  rw [chosenModel]
  cases hlast : (valuesOf "--model" args).getLast? with
  | none =>
    rw [hlast] at hf
    exact Option.some.inj hf
  | some name =>
    rw [hlast] at hf
    rw [Option.bind_some, ← show some o.model = Model.ofName? name from hf]
    rfl

theorem boot_eq (h : ofArgs args = .ok o) : o.boot = chosenBoot args := by
  have hf : FoundBy bootAt (fun _ boot => id boot) Options.boot := by
    refine ⟨?_, ?_⟩
    · intro v next hv
      have hboot : v ≠ "--boot" := by
        rintro rfl
        cases hv
      have hnone : v ≠ "--no-font" := by
        rintro rfl
        cases hv
      rw [bootAt, if_neg hboot, if_neg hnone]
    · intro words s next o hw
      cases hw <;> rfl
  rw [hf.field_eq h, foldl_eq_getLast?, Option.map_id]
  rfl

theorem dumps_eq (h : ofArgs args = .ok o) :
    o.dumps.map some = (valuesOf "--dump" args).map Extent.ofString? := by
  have hf := field_eq_valuesOf "--dump" (fun dumps text => dumps ++ [Extent.ofString? text])
    (fun o => o.dumps.map some) (by decide)
    (fun words s next o hw => by
      cases hw with
      | @dump text e hv he =>
        change (o.dumps ++ [e]).map some = o.dumps.map some ++ [Extent.ofString? text]
        rw [he, List.map_append]
        rfl
      | _ => rfl) h
  rw [hf, foldl_append_eq_map]
  rfl

theorem queries_eq (h : ofArgs args = .ok o) : o.queries = valuesOf "--query" args := by
  have hf := field_eq_valuesOf "--query" (fun queries path => queries ++ [id path]) Options.queries
    (by decide) (fun words s next o hw => by cases hw <;> rfl) h
  rw [hf, foldl_append_eq_map, List.map_id]
  rfl

theorem json_eq (h : ofArgs args = .ok o) : o.json = decide ("--json" ∈ args) := by
  have hf := field_eq_valuesOf "--json" (fun _ _ => true) Options.json
    (by decide) (fun words s next o hw => by cases hw <;> rfl) h
  rw [hf, foldl_eq_getLast?]
  by_cases hmem : "--json" ∈ args
  · have hne : valuesOf "--json" args ≠ [] := fun hnil => valuesOf_eq_nil_iff.1 hnil hmem
    rw [decide_eq_true hmem, List.getLast?_eq_some_getLast hne]
    rfl
  · rw [decide_eq_false hmem, valuesOf_eq_nil_iff.2 hmem]
    rfl

theorem reads_of_ofArgs (h : ofArgs args = .ok o) : o.Reads args :=
  ⟨rom_eq h, model_eq h, boot_eq h, dumps_eq h, queries_eq h, json_eq h⟩

end Options
end ChipFamily.CommandLine
