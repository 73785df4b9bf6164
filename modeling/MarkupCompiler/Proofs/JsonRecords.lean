import MarkupCompiler.Json.Record
import MarkupCompiler.Proofs.JsonTexts
import MarkupCompiler.Proofs.ReferenceGrammar

/-!
# Records in JSON texts

What a record is read as depends on its members alone: on whether a field is named once, not at all
or more often, and on the value that stands after the name. `FieldOr` and `FieldOf` say which value
a field then has, and `SpoiltBy` when it has none. For each kind of value there is a relation
between what is meant and the JSON values that mean it, such as `IsString`.

An array of values stands for the object that gives these values to the first fields (`RecordOf`).
-/

namespace MarkupCompiler.Json

/-! ## Names in objects -/

/-- No member has a name. -/
def Absent (name : String) (members : List (String × Json)) : Prop :=
  ∀ member ∈ members, member.1 ≠ name

/-- One member has a name, and its value. -/
def GivenOnce (name : String) (value : Json) (members : List (String × Json)) : Prop :=
  ∃ before after, members = before ++ (name, value) :: after ∧ Absent name before ∧
    Absent name after

/-- Several members have a name. -/
def Repeated (name : String) (members : List (String × Json)) : Prop :=
  ∃ first second, [(name, first), (name, second)].Sublist members

section Member

variable {name : String} {members : List (String × Json)} {value : Json}

/-- A name is absent if no members are found under it. -/
theorem filter_eq_nil_iff_absent :
    members.filter (fun entry => entry.1 == name) = [] ↔ Absent name members := by
  simp [List.filter_eq_nil_iff, Absent]

/-- A name is given once if one member is found under it. -/
theorem filter_eq_singleton_iff_givenOnce :
    members.filter (fun entry => entry.1 == name) = [(name, value)] ↔
      GivenOnce name value members := by
  rw [List.filter_eq_cons_iff]
  constructor
  · rintro ⟨before, after, rfl, hbefore, -, hafter⟩
    exact ⟨before, after, rfl, filter_eq_nil_iff_absent.1 (List.filter_eq_nil_iff.2 hbefore),
      filter_eq_nil_iff_absent.1 hafter⟩
  · rintro ⟨before, after, rfl, hbefore, hafter⟩
    exact ⟨before, after, rfl, List.filter_eq_nil_iff.1 (filter_eq_nil_iff_absent.2 hbefore),
      BEq.rfl, filter_eq_nil_iff_absent.2 hafter⟩

/-- A name is given once if the lookup finds one member. -/
theorem GivenOnce.of_filter (h : members.filter (fun entry => entry.1 == name) = [(name, value)]) :
    GivenOnce name value members := filter_eq_singleton_iff_givenOnce.1 h

/-- The members that are found under a name have it. -/
theorem fst_eq_of_mem_filter {entry : String × Json}
    (h : entry ∈ members.filter fun entry => entry.1 == name) : entry.1 = name := by
  simpa using (List.mem_filter.1 h).2

/-- A name that is absent has no value. -/
theorem member?_of_absent (h : Absent name members) : member? name members = some none := by
  rw [member?, filter_eq_nil_iff_absent.2 h]

/-- A name that is given once has the value that is given. -/
theorem member?_of_givenOnce (h : GivenOnce name value members) :
    member? name members = some (some value) := by
  rw [member?, filter_eq_singleton_iff_givenOnce.2 h]

/-- A name that is repeated makes the lookup fail. -/
theorem member?_of_repeated (h : Repeated name members) : member? name members = none := by
  obtain ⟨first, second, hsub⟩ := h
  have hpair : [(name, first), (name, second)].filter (fun entry => entry.1 == name) =
      [(name, first), (name, second)] := by simp
  have hlength := (hsub.filter fun entry => entry.1 == name).length_le
  rw [hpair] at hlength
  -- At least two members have the name, so that the last case is left.
  rw [member?]
  split
  · rename_i hnil
    rw [hnil] at hlength
    exact absurd hlength (by simp)
  · rename_i hone
    rw [hone] at hlength
    exact absurd hlength (by simp)
  · rfl

/-- Members give a name in one of three ways. -/
theorem absent_or_givenOnce_or_repeated (name : String) (members : List (String × Json)) :
    Absent name members ∨ (∃ value, GivenOnce name value members) ∨ Repeated name members := by
  rcases hfilter : members.filter fun entry => entry.1 == name with
    _ | ⟨⟨first, value⟩, _ | ⟨⟨second, value'⟩, others⟩⟩
  · exact .inl (filter_eq_nil_iff_absent.1 hfilter)
  · obtain rfl : first = name := fst_eq_of_mem_filter (hfilter ▸ List.mem_singleton_self _)
    exact .inr (.inl ⟨value, filter_eq_singleton_iff_givenOnce.1 hfilter⟩)
  · have hsub : [(first, value), (second, value')].Sublist
        (members.filter fun entry => entry.1 == name) :=
      hfilter ▸ List.sublist_append_left _ others
    have hmem : (second, value') ∈ [(first, value), (second, value')] := by simp
    obtain rfl : first = name := fst_eq_of_mem_filter (hsub.subset (.head _))
    obtain rfl : second = first := fst_eq_of_mem_filter (hsub.subset hmem)
    exact .inr (.inr ⟨value, value', hsub.trans List.filter_sublist⟩)

/-- What is given once is among the members. -/
theorem GivenOnce.mem (h : GivenOnce name value members) : (name, value) ∈ members := by
  obtain ⟨before, after, rfl, -, -⟩ := h
  exact List.mem_append_right _ (.head _)

/-- A name that is given once is given no other value. -/
theorem GivenOnce.eq_of_mem {value' : Json} (h : GivenOnce name value members)
    (hmem : (name, value') ∈ members) : value' = value := by
  have hfilter : (name, value') ∈ members.filter fun entry => entry.1 == name :=
    List.mem_filter.2 ⟨hmem, BEq.rfl⟩
  rw [filter_eq_singleton_iff_givenOnce.2 h, List.mem_singleton] at hfilter
  exact (Prod.mk.inj hfilter).2

end Member

/-! ## Fields -/

section Field

variable {α : Type} {means : α → Json → Prop} {read : Json → Option α} {default a : α}
  {name : String} {members : List (String × Json)}

/-- A field that may be left out, and then has a default. -/
inductive FieldOr (means : α → Json → Prop) (default : α) (name : String)
    (members : List (String × Json)) : α → Prop
  | leftOut (h : Absent name members) : FieldOr means default name members default
  | given {a : α} {value : Json} (h : GivenOnce name value members) (ha : means a value) :
    FieldOr means default name members a

/-- A field that has to be there. -/
inductive FieldOf (means : α → Json → Prop) (name : String) (members : List (String × Json)) :
    α → Prop
  | given {a : α} {value : Json} (h : GivenOnce name value members) (ha : means a value) :
    FieldOf means name members a

/-- A field that is given twice, or a value that means nothing. -/
def SpoiltBy (means : α → Json → Prop) (name : String) (members : List (String × Json)) : Prop :=
  Repeated name members ∨ ∃ value, (name, value) ∈ members ∧ ∀ a, ¬means a value

/-- What is read of a field is read of its absence, or of the one value that is given. -/
theorem member?_bind_eq_some_iff {read : Option Json → Option α} :
    (member? name members).bind read = some a ↔
      Absent name members ∧ read none = some a ∨
        ∃ value, GivenOnce name value members ∧ read (some value) = some a := by
  constructor
  · intro h
    obtain habsent | ⟨value, hgiven⟩ | hrepeated := absent_or_givenOnce_or_repeated name members
    · rw [member?_of_absent habsent] at h
      exact .inl ⟨habsent, h⟩
    · rw [member?_of_givenOnce hgiven] at h
      exact .inr ⟨value, hgiven, h⟩
    · rw [member?_of_repeated hrepeated] at h
      cases h
  · rintro (⟨habsent, h⟩ | ⟨value, hgiven, h⟩)
    · rwa [member?_of_absent habsent]
    · rwa [member?_of_givenOnce hgiven]

/-- A field that may be left out is read as it is given or left out. -/
theorem fieldOr_eq_some_iff (hread : ∀ value a, read value = some a ↔ means a value) :
    (member? name members).bind (fieldOr default read) = some a ↔
      FieldOr means default name members a := by
  rw [member?_bind_eq_some_iff]
  constructor
  · rintro (⟨habsent, h⟩ | ⟨value, hgiven, h⟩)
    · obtain rfl := Option.some.inj h
      exact .leftOut habsent
    · exact .given hgiven ((hread _ _).1 h)
  · rintro (habsent | ⟨hgiven, ha⟩)
    · exact .inl ⟨habsent, rfl⟩
    · exact .inr ⟨_, hgiven, (hread _ _).2 ha⟩

/-- A field that has to be there is read as it is given. -/
theorem fieldOf_eq_some_iff (hread : ∀ value a, read value = some a ↔ means a value) :
    (member? name members).bind (fieldOf read) = some a ↔ FieldOf means name members a := by
  rw [member?_bind_eq_some_iff]
  constructor
  · rintro (⟨-, h⟩ | ⟨value, hgiven, h⟩)
    · cases h
    · exact .given hgiven ((hread _ _).1 h)
  · rintro ⟨hgiven, ha⟩
    exact .inr ⟨_, hgiven, (hread _ _).2 ha⟩

/-- A record has the value that its fields have, this one and those after it. -/
theorem fieldOr_bind_eq_some_iff (hread : ∀ value a, read value = some a ↔ means a value)
    {β : Type} {next : α → Option β} {b : β} :
    ((member? name members).bind (fieldOr default read)).bind next = some b ↔
      ∃ a, FieldOr means default name members a ∧ next a = some b := by
  simp only [← fieldOr_eq_some_iff hread]
  exact Option.bind_eq_some_iff

/-- So has a record with a field that has to be there. -/
theorem fieldOf_bind_eq_some_iff (hread : ∀ value a, read value = some a ↔ means a value)
    {β : Type} {next : α → Option β} {b : β} :
    ((member? name members).bind (fieldOf read)).bind next = some b ↔
      ∃ a, FieldOf means name members a ∧ next a = some b := by
  simp only [← fieldOf_eq_some_iff hread]
  exact Option.bind_eq_some_iff

/-- A field that may be left out has a value unless it is spoilt. -/
theorem fieldOr_eq_none_iff (hread : ∀ value a, read value = some a ↔ means a value) :
    (member? name members).bind (fieldOr default read) = none ↔ SpoiltBy means name members := by
  constructor
  · intro h
    obtain habsent | ⟨value, hgiven⟩ | hrepeated := absent_or_givenOnce_or_repeated name members
    · rw [member?_of_absent habsent] at h
      cases h
    · rw [member?_of_givenOnce hgiven] at h
      refine .inr ⟨value, hgiven.mem, fun a ha => ?_⟩
      have hsome := (hread _ _).2 ha
      rw [show read value = none from h] at hsome
      cases hsome
    · exact .inl hrepeated
  · intro h
    refine Option.eq_none_iff_forall_ne_some.2 fun a ha => ?_
    rcases h with hrepeated | ⟨value, hmem, hvalue⟩
    · rw [member?_of_repeated hrepeated] at ha
      cases ha
    · cases (fieldOr_eq_some_iff hread).1 ha with
      | leftOut habsent => exact habsent _ hmem rfl
      | given hgiven hmeans => exact hvalue _ (hgiven.eq_of_mem hmem ▸ hmeans)

/-- A record has a value unless one of its fields is spoilt, be it this one or one after it. -/
theorem fieldOr_bind_eq_none_iff (hread : ∀ value a, read value = some a ↔ means a value)
    {β : Type} {next : α → Option β} {p : Prop} (hnext : ∀ a, next a = none ↔ p) :
    ((member? name members).bind (fieldOr default read)).bind next = none ↔
      SpoiltBy means name members ∨ p := by
  rw [← fieldOr_eq_none_iff hread]
  cases (member? name members).bind (fieldOr default read) with
  | none => simp
  | some a => simp [hnext]

/-- A value that is `null` spoils a field that cannot be `null`. -/
theorem SpoiltBy.of_null (hnull : ∀ a, ¬means a .null) (h : (name, .null) ∈ members) :
    SpoiltBy means name members :=
  .inr ⟨.null, h, hnull⟩

end Field

/-! ## The two forms of a record -/

/-- The members of a record: those of an object, or the first fields with the items of an array. -/
inductive RecordOf (names : List String) : Json → List (String × Json) → Prop
  | object (members : List (String × Json)) : RecordOf names (.object members) members
  | array {items : List Json} (h : items.length ≤ names.length) :
    RecordOf names (.array items) (names.zip items)

/-- Items are found under the names that stand in their places. -/
theorem mapM_member?_zip {names : List String} (hnames : names.Nodup) (items : List Json)
    (hitems : items.length ≤ names.length) (before : List (String × Json))
    (hbefore : ∀ name ∈ names, Absent name before) :
    names.mapM (fun name => member? name (before ++ names.zip items)) =
      some (items.map some ++ List.replicate (names.length - items.length) none) := by
  -- `before` are the members that have been passed. No name that is to come is among theirs.
  induction names generalizing items before with
  | nil =>
    obtain rfl : items = [] := List.length_eq_zero_iff.1 (Nat.le_zero.1 hitems)
    rfl
  | cons name names ih =>
    obtain ⟨hname, hnames⟩ := List.nodup_cons.1 hnames
    have hnot : ∀ items : List Json, Absent name (names.zip items) := by
      rintro items ⟨other, value⟩ hmem rfl
      exact hname (List.of_mem_zip hmem).1
    cases items with
    | nil =>
      have hrest := ih hnames [] (Nat.zero_le _) before fun other hother =>
        hbefore other (List.mem_cons_of_mem name hother)
      rw [List.zip_nil_right] at hrest ⊢
      have hfirst : member? name (before ++ []) = some none :=
        member?_of_absent (by rw [List.append_nil]; exact hbefore name List.mem_cons_self)
      rw [List.mapM_cons, hfirst, hrest]
      rfl
    | cons item items =>
      have hrest := ih hnames items (Nat.le_of_succ_le_succ hitems) (before ++ [(name, item)]) (by
        intro other hother member hmem
        rcases List.mem_append.1 hmem with hmem | hmem
        · exact hbefore other (List.mem_cons_of_mem name hother) member hmem
        · rw [List.mem_singleton.1 hmem]
          rintro rfl
          exact hname hother)
      have hfirst : member? name (before ++ (name, item) :: names.zip items) = some (some item) :=
        member?_of_givenOnce ⟨before, _, rfl, hbefore name (.head _), hnot items⟩
      rw [List.append_assoc, List.singleton_append] at hrest
      rw [List.zip_cons_cons, List.mapM_cons, hfirst, hrest, List.length_cons, List.length_cons,
        Nat.add_sub_add_right]
      rfl

/-- Both forms of a record have the values that their members give to the names. -/
theorem RecordOf.fields? {names : List String} (hnames : names.Nodup) {json : Json}
    {members : List (String × Json)} (h : RecordOf names json members) :
    json.fields? names = names.mapM fun name => member? name members := by
  cases h with
  | object => rfl
  | array hitems =>
    have hzip := mapM_member?_zip hnames _ hitems [] fun _ _ _ h => absurd h List.not_mem_nil
    rw [List.nil_append] at hzip
    rw [hzip, Json.fields?, if_pos hitems]

/-- Names are looked up together: each has a place for its value, or one of them has none and then
there are no values at all. -/
theorem mapM_eq_map_or_eq_none {α : Type} (lookup : String → Option (Option α))
    (names : List String) :
    (∀ name ∈ names, lookup name = some (lookup name).join) ∧
        names.mapM lookup = some (names.map fun name => (lookup name).join) ∨
      ∃ name ∈ names, lookup name = none ∧ names.mapM lookup = none := by
  induction names with
  | nil => exact .inl ⟨by simp, rfl⟩
  | cons name names ih =>
    rw [List.mapM_cons]
    cases hname : lookup name with
    | none => exact .inr ⟨name, (.head _), hname, rfl⟩
    | some value =>
      rcases ih with ⟨hsome, heq⟩ | ⟨other, hother, hnone, heq⟩
      · refine .inl ⟨List.forall_mem_cons.2 ⟨by rw [hname]; rfl, hsome⟩, ?_⟩
        rw [heq, List.map_cons, hname]
        rfl
      · exact .inr ⟨other, List.mem_cons_of_mem name hother, hnone, by rw [heq]; rfl⟩

/-- Only records have fields. -/
theorem exists_recordOf {names : List String} {json : Json} {values : List (Option Json)}
    (h : json.fields? names = some values) : ∃ members, RecordOf names json members := by
  cases json with
  | object members => exact ⟨members, .object members⟩
  | array items =>
    rw [Json.fields?] at h
    split at h
    · rename_i hitems
      exact ⟨_, .array hitems⟩
    · cases h
  | _ => cases h

/-! ## Kinds of values -/

/-- The value that is a string. -/
def IsString (text : String) (value : Json) : Prop := value = .string text

/-- The values that are lists of strings. -/
def IsStrings (texts : List String) (value : Json) : Prop := value = .array (texts.map .string)

/-- A whole number below `2 ^ 32`. -/
def IsWord (n : Nat) (value : Json) : Prop :=
  ∃ digits, value = .number digits ∧ Text.Writes 10 digits n ∧ n < Nat.pow 2 32

/-- One of several things that have names: the name, or an object that maps it to `null`. -/
def IsNamed {α : Type} (name : α → String) (a : α) (value : Json) : Prop :=
  value = .string (name a) ∨ value = .object [(name a, .null)]

/-- Something that may be `null`. -/
def IsOptional {α : Type} (means : α → Json → Prop) : Option α → Json → Prop
  | none, value => value = .null
  | some a, value => means a value

/-- A text is read from its string alone. -/
theorem string?_eq_some_iff (value : Json) (text : String) :
    string? value = some text ↔ IsString text value := by
  cases value <;> simp [string?, IsString]

/-- Texts are read from the array of their strings alone. -/
theorem list?_string?_eq_some_iff (value : Json) (texts : List String) :
    list? string? value = some texts ↔ IsStrings texts value := by
  cases value with
  | array items =>
    rw [list?, IsStrings, Json.array.injEq]
    induction items generalizing texts with
    | nil =>
      constructor
      · intro h
        obtain rfl := Option.some.inj h
        rfl
      · intro h
        obtain rfl := List.map_eq_nil_iff.1 h.symm
        rfl
    | cons item items ih =>
      rw [List.mapM_cons]
      constructor
      · intro h
        obtain ⟨text, hitem, h⟩ := Option.bind_eq_some_iff.1 h
        obtain ⟨others, hitems, h⟩ := Option.bind_eq_some_iff.1 h
        obtain rfl := Option.some.inj h
        rw [List.map_cons, ← (ih others).1 hitems, (string?_eq_some_iff item text).1 hitem]
      · intro h
        cases texts with
        | nil => cases h
        | cons text texts =>
          obtain ⟨rfl, hitems⟩ := List.cons.inj h
          rw [(ih texts).2 hitems]
          rfl
  | _ => simp [list?, IsStrings]

/-- Things with different names are found by their names. -/
theorem lookup_map_eq_some_iff {α : Type} {name : α → String} (hname : Function.Injective name)
    (choices : List α) (text : String) (a : α) :
    (choices.map fun a => (name a, a)).lookup text = some a ↔ a ∈ choices ∧ text = name a := by
  induction choices with
  | nil => simp
  | cons b choices ih =>
    rw [List.map_cons, List.lookup_cons, List.mem_cons]
    by_cases htext : text = name b
    · rw [beq_iff_eq.2 htext]
      show some b = some a ↔ _
      rw [Option.some.injEq]
      constructor
      · rintro rfl
        exact ⟨.inl rfl, htext⟩
      · rintro ⟨-, htext'⟩
        exact hname (htext.symm.trans htext')
    · rw [beq_eq_false_iff_ne.2 htext]
      show (choices.map fun a => (name a, a)).lookup text = some a ↔ _
      rw [ih]
      constructor
      · rintro ⟨hmem, heq⟩
        exact ⟨.inr hmem, heq⟩
      · rintro ⟨rfl | hmem, heq⟩
        · exact absurd heq htext
        · exact ⟨hmem, heq⟩

/-- One of several things is read from its name, in either form. -/
theorem choice?_eq_some_iff {α : Type} {name : α → String} (hname : Function.Injective name)
    (choices : List α) (hchoices : ∀ a, a ∈ choices) (value : Json) (a : α) :
    choice? (choices.map fun a => (name a, a)) value = some a ↔ IsNamed name a value := by
  have hlookup : ∀ text, (choices.map fun a => (name a, a)).lookup text = some a ↔ text = name a :=
    fun text => (lookup_map_eq_some_iff hname choices text a).trans (and_iff_right (hchoices a))
  fun_cases choice? (choices.map fun a => (name a, a)) value with
  | case1 text => simp [hlookup, IsNamed]
  | case2 text => simp [hlookup, IsNamed]
  | case3 value hstring hobject =>
    refine ⟨fun h => (by cases h), ?_⟩
    rintro (rfl | rfl)
    · exact absurd rfl (hstring _)
    · exact absurd rfl (hobject _)

/-- Something that may be `null` is read as nothing from `null`, and else as itself. -/
theorem optional?_eq_some_iff {α : Type} {means : α → Json → Prop} {read : Json → Option α}
    (hread : ∀ value a, read value = some a ↔ means a value) (hnull : read .null = none)
    (value : Json) (a : Option α) : optional? read value = some a ↔ IsOptional means a value := by
  by_cases hvalue : value = .null
  · -- `null` means nothing to `read`, so that it is not taken for something there.
    subst hvalue
    cases a with
    | none => simp [optional?, IsOptional]
    | some a => simp [optional?, IsOptional, ← hread, hnull]
  · rw [optional?]
    · cases a with
      | none => simp [IsOptional, hvalue]
      | some a => simp [IsOptional, ← hread]
    · exact hvalue

/-- Numbers are written in digits. -/
theorem isDigit_of_writes {digits : List Char} {n : Nat} (h : Text.Writes 10 digits n) :
    ∀ c ∈ digits, c.isDigit = true := by
  have hdigit : ∀ d < 10, (Nat.digitChar d).isDigit = true ∧
      (Nat.digitChar d).toUpper.isDigit = true := by decide
  have hlast : ∀ {c d}, Text.IsDigit 10 c d → c.isDigit = true := by
    rintro c d ⟨hd, rfl | rfl⟩
    · exact (hdigit d hd).1
    · exact (hdigit d hd).2
  induction h with
  | single hc => simpa using hlast hc
  | more _ hc ih =>
    intro x hx
    rcases List.mem_append.1 hx with hx | hx
    · exact ih x hx
    · rw [List.mem_singleton.1 hx]
      exact hlast hc

/-- A number of 32 bits is read from its digits alone. -/
theorem word32?_eq_some_iff (value : Json) (n : Nat) :
    word32? value = some n ↔ IsWord n value := by
  cases value with
  | number spelling =>
    have hwrites := @Text.digitsValue?_eq_some_iff 10 spelling n (by decide)
    simp only [word32?, IsWord, Json.number.injEq, exists_eq_left']
    by_cases hall : spelling.all Char.isDigit = true
    · rw [if_pos hall, Text.word32?]
      · by_cases hne : spelling = []
        · subst hne
          simp [← hwrites]
        · rw [if_neg (by simpa using hne), Option.filter_eq_some_iff, ← hwrites]
          simp [hne]
      · rintro rest rfl
        cases hall
    · rw [if_neg hall]
      refine ⟨fun h => (by cases h), fun h => absurd ?_ hall⟩
      exact List.all_eq_true.2 (isDigit_of_writes h.1)
  | _ => simp [word32?, IsWord]

/-- A number is written by its digits. -/
theorem writes_toDigits (n : Nat) : Text.Writes 10 (Nat.toDigits 10 n) n := by
  induction n using Nat.strongRecOn with
  | ind n ih =>
    by_cases hlt : n < 10
    · rw [Nat.toDigits_of_lt_base hlt]
      exact .single ⟨hlt, .inl rfl⟩
    · have hdigit : Text.IsDigit 10 (Nat.digitChar (n % 10)) (n % 10) :=
        ⟨Nat.mod_lt _ (by decide), .inl rfl⟩
      have hmore := Text.Writes.more (ih (n / 10) (by omega)) hdigit
      rw [Nat.div_add_mod'] at hmore
      rwa [Nat.toDigits_of_base_le (by decide) (Nat.not_lt.1 hlt)]

/-- A number of 32 bits is meant by its JSON form. -/
theorem isWord_ofNat {n : Nat} (h : n < Nat.pow 2 32) : IsWord n (.ofNat n) :=
  ⟨_, rfl, writes_toDigits n, h⟩

end MarkupCompiler.Json
