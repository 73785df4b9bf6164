import MarkupCompiler.Host.Options
import MarkupCompiler.Proofs.JsonRecords
import MarkupCompiler.Proofs.Scanning

/-!
# Options in JSON texts

A host gives its options as a text, blank or of a JSON record. Only the members that are named after
a field count, with their values: the order of members, other members, blanks, the spelling of
strings, and whether the record is an object or an array make no difference. Each field has the
value that is given for it, or its default if it is left out (`ListedIn`). A field that is named
twice, or whose value is not of its kind, makes the whole text unreadable (`Spoilt`). That holds of
the record of the compiler's options inside as well as of the outer one.
-/

namespace MarkupCompiler

open Json

/-! ## Options of the compiler -/

/-- Targets have different names. -/
theorem Target.text_injective : Function.Injective Target.text := by
  intro a b h
  cases a <;> cases b <;> simp_all [Target.text]

/-- A target is read from its name. -/
theorem Target.ofJson?_eq_some_iff (json : Json) (target : Target) :
    Target.ofJson? json = some target ↔ IsNamed Target.text target json :=
  choice?_eq_some_iff Target.text_injective [.client, .server] (fun a => by cases a <;> decide) json
    target

namespace CompileOptions

/-- The names of the fields, in their order. -/
def fieldNames : List String :=
  ["target", "moduleName", "serverModuleName", "conditionalComponent", "conditionProp"]

/-- The members that give options. -/
structure ListedIn (members : List (String × Json)) (options : CompileOptions) : Prop where
  target : FieldOr (IsNamed Target.text) .client "target" members options.target
  moduleName : FieldOr IsString "sprig/dom" "moduleName" members options.moduleName
  serverModuleName :
    FieldOr IsString "sprig/server" "serverModuleName" members options.serverModuleName
  conditionalComponent :
    FieldOr IsString "Show" "conditionalComponent" members options.conditionalComponent
  conditionProp : FieldOr IsString "when" "conditionProp" members options.conditionProp

/-- The members that give no options. -/
def Spoilt (members : List (String × Json)) : Prop :=
  SpoiltBy (IsNamed Target.text) "target" members ∨ SpoiltBy IsString "moduleName" members ∨
    SpoiltBy IsString "serverModuleName" members ∨
    SpoiltBy IsString "conditionalComponent" members ∨ SpoiltBy IsString "conditionProp" members

/-- The values that mean options. -/
def IsMeant (options : CompileOptions) (json : Json) : Prop :=
  ∃ members, RecordOf fieldNames json members ∧ options.ListedIn members

section Record

variable {json : Json} {members : List (String × Json)}

/-- The fields of the options are read one after the other from the members of a record. -/
theorem ofJson?_of_recordOf (h : RecordOf fieldNames json members) :
    ofJson? json = do
      let target ← (member? "target" members).bind (fieldOr .client Target.ofJson?)
      let moduleName ← (member? "moduleName" members).bind (fieldOr "sprig/dom" string?)
      let serverModuleName ←
        (member? "serverModuleName" members).bind (fieldOr "sprig/server" string?)
      let conditionalComponent ←
        (member? "conditionalComponent" members).bind (fieldOr "Show" string?)
      let conditionProp ← (member? "conditionProp" members).bind (fieldOr "when" string?)
      return { target, moduleName, serverModuleName, conditionalComponent, conditionProp } := by
  have hfields : json.fields? fieldNames = _ := h.fields? (by decide)
  rw [ofJson?, ← fieldNames, hfields]
  -- All members are looked up before the first is read. A failure is the same at either time.
  rcases mapM_eq_map_or_eq_none (member? · members) fieldNames with
    ⟨hsome, heq⟩ | ⟨name, hname, hnone, heq⟩
  · rw [heq, hsome "target" (by decide), hsome "moduleName" (by decide),
      hsome "serverModuleName" (by decide), hsome "conditionalComponent" (by decide),
      hsome "conditionProp" (by decide)]
    rfl
  · rw [heq]
    simp only [fieldNames, List.mem_cons, List.not_mem_nil, or_false] at hname
    rcases hname with rfl | rfl | rfl | rfl | rfl <;> simp [hnone]

/-- A record is read as the options that its members list. -/
theorem ofJson?_eq_some_iff_listedIn (h : RecordOf fieldNames json members)
    {options : CompileOptions} : ofJson? json = some options ↔ options.ListedIn members := by
  rw [ofJson?_of_recordOf h]
  simp only [Option.bind_eq_bind, fieldOr_bind_eq_some_iff Target.ofJson?_eq_some_iff,
    fieldOr_bind_eq_some_iff string?_eq_some_iff]
  constructor
  · rintro ⟨_, htarget, _, hmodule, _, hserver, _, hcomponent, _, hprop, ⟨⟩⟩
    exact ⟨htarget, hmodule, hserver, hcomponent, hprop⟩
  · rintro ⟨htarget, hmodule, hserver, hcomponent, hprop⟩
    exact ⟨_, htarget, _, hmodule, _, hserver, _, hcomponent, _, hprop, rfl⟩

/-- A record is unreadable exactly if a field is spoilt. -/
theorem ofJson?_eq_none_iff_spoilt (h : RecordOf fieldNames json members) :
    ofJson? json = none ↔ Spoilt members := by
  rw [ofJson?_of_recordOf h]
  refine fieldOr_bind_eq_none_iff Target.ofJson?_eq_some_iff fun _ =>
    fieldOr_bind_eq_none_iff string?_eq_some_iff fun _ =>
    fieldOr_bind_eq_none_iff string?_eq_some_iff fun _ =>
    fieldOr_bind_eq_none_iff string?_eq_some_iff fun _ => ?_
  refine (fieldOr_bind_eq_none_iff string?_eq_some_iff fun _ => ?_).trans (iff_of_eq (or_false _))
  exact iff_of_false (Option.some_ne_none _) id

end Record

/-- The options of the compiler are read from the values that mean them alone. -/
theorem ofJson?_eq_some_iff (json : Json) (options : CompileOptions) :
    ofJson? json = some options ↔ options.IsMeant json := by
  constructor
  · intro h
    obtain ⟨values, hvalues, -⟩ := Option.bind_eq_some_iff.1 h
    obtain ⟨members, hmembers⟩ := exists_recordOf hvalues
    exact ⟨members, hmembers, (ofJson?_eq_some_iff_listedIn hmembers).1 h⟩
  · rintro ⟨members, hmembers, hlisted⟩
    exact (ofJson?_eq_some_iff_listedIn hmembers).2 hlisted

/-- Options are meant by their JSON form. -/
theorem isMeant_toJson (options : CompileOptions) : options.IsMeant options.toJson :=
  ⟨_, .object _, .given (.of_filter rfl) (.inl rfl), .given (.of_filter rfl) rfl,
    .given (.of_filter rfl) rfl, .given (.of_filter rfl) rfl, .given (.of_filter rfl) rfl⟩

/-- The JSON form of options is written as it is rendered. -/
theorem written_render_toJson (options : CompileOptions) :
    Written options.toJson options.toJson.render := by
  refine written_render_object fun member hmember => ?_
  simp only [List.mem_cons, List.not_mem_nil, or_false] at hmember
  rcases hmember with rfl | rfl | rfl | rfl | rfl <;> exact written_render_string _

/-- Fields of the compiler's options cannot be `null`. -/
theorem spoilt_of_null {members : List (String × Json)} {name : String}
    (hname : name ∈ fieldNames) (h : (name, .null) ∈ members) : Spoilt members := by
  have htarget : ∀ target, ¬IsNamed Target.text target .null := by rintro target (h | h) <;> cases h
  have hstring : ∀ text, ¬IsString text .null := fun _ h => by cases h
  simp only [fieldNames, List.mem_cons, List.not_mem_nil, or_false] at hname
  rcases hname with rfl | rfl | rfl | rfl | rfl
  · exact .inl (.of_null htarget h)
  · exact .inr (.inl (.of_null hstring h))
  · exact .inr (.inr (.inl (.of_null hstring h)))
  · exact .inr (.inr (.inr (.inl (.of_null hstring h))))
  · exact .inr (.inr (.inr (.inr (.of_null hstring h))))

/-- Spoilt options of the compiler mean nothing. -/
theorem not_isMeant_of_spoilt {json : Json} {members : List (String × Json)}
    (hrecord : RecordOf fieldNames json members) (h : Spoilt members) (options : CompileOptions) :
    ¬options.IsMeant json := by
  intro hmeant
  rw [← ofJson?_eq_some_iff, (ofJson?_eq_none_iff_spoilt hrecord).2 h] at hmeant
  cases hmeant

end CompileOptions

/-! ## Options of the host -/

namespace HostOptions

/-- The names of the fields, in their order. -/
def fieldNames : List String := ["extensions", "excludeDirs", "compile"]

/-- The members that give options. -/
structure ListedIn (members : List (String × Json)) (options : HostOptions) : Prop where
  extensions : FieldOr IsStrings ["jsx", "tsx"] "extensions" members options.extensions
  excludeDirs : FieldOr IsStrings ["node_modules"] "excludeDirs" members options.excludeDirs
  compile : FieldOr CompileOptions.IsMeant {} "compile" members options.compile

/-- The members that give no options. -/
def Spoilt (members : List (String × Json)) : Prop :=
  SpoiltBy IsStrings "extensions" members ∨ SpoiltBy IsStrings "excludeDirs" members ∨
    SpoiltBy CompileOptions.IsMeant "compile" members

section Record

variable {json : Json} {members : List (String × Json)}

/-- The fields of the options are read one after the other from the members of a record. -/
theorem ofJson?_of_recordOf (h : RecordOf fieldNames json members) :
    ofJson? json = do
      let extensions ← (member? "extensions" members).bind
        (fieldOr ["jsx", "tsx"] (list? string?))
      let excludeDirs ← (member? "excludeDirs" members).bind
        (fieldOr ["node_modules"] (list? string?))
      let compile ← (member? "compile" members).bind (fieldOr {} CompileOptions.ofJson?)
      return { extensions, excludeDirs, compile } := by
  have hfields : json.fields? fieldNames = _ := h.fields? (by decide)
  rw [ofJson?, ← fieldNames, hfields]
  rcases mapM_eq_map_or_eq_none (member? · members) fieldNames with
    ⟨hsome, heq⟩ | ⟨name, hname, hnone, heq⟩
  · rw [heq, hsome "extensions" (by decide), hsome "excludeDirs" (by decide),
      hsome "compile" (by decide)]
    rfl
  · rw [heq]
    simp only [fieldNames, List.mem_cons, List.not_mem_nil, or_false] at hname
    rcases hname with rfl | rfl | rfl <;> simp [hnone]

/-- A record is read as the options that its members list. -/
theorem ofJson?_eq_some_iff_listedIn (h : RecordOf fieldNames json members)
    {options : HostOptions} : ofJson? json = some options ↔ options.ListedIn members := by
  rw [ofJson?_of_recordOf h]
  simp only [Option.bind_eq_bind, fieldOr_bind_eq_some_iff list?_string?_eq_some_iff,
    fieldOr_bind_eq_some_iff CompileOptions.ofJson?_eq_some_iff]
  constructor
  · rintro ⟨_, hextensions, _, hexclude, _, hcompile, ⟨⟩⟩
    exact ⟨hextensions, hexclude, hcompile⟩
  · rintro ⟨hextensions, hexclude, hcompile⟩
    exact ⟨_, hextensions, _, hexclude, _, hcompile, rfl⟩

/-- A record is unreadable exactly if a field is spoilt. -/
theorem ofJson?_eq_none_iff_spoilt (h : RecordOf fieldNames json members) :
    ofJson? json = none ↔ Spoilt members := by
  rw [ofJson?_of_recordOf h]
  refine fieldOr_bind_eq_none_iff list?_string?_eq_some_iff fun _ =>
    fieldOr_bind_eq_none_iff list?_string?_eq_some_iff fun _ => ?_
  refine (fieldOr_bind_eq_none_iff CompileOptions.ofJson?_eq_some_iff fun _ => ?_).trans
    (iff_of_eq (or_false _))
  exact iff_of_false (Option.some_ne_none _) id

end Record

/-! ## Texts of options -/

variable {text : List Char}

/-- A text that writes a value is not blank. -/
theorem all_isBlank_of_written {json : Json} (h : Written json text) :
    text.all Text.isBlank = false := by
  obtain ⟨blanks, c, tail, -, hc, rfl⟩ := h.begins
  refine List.all_eq_false.2 ⟨c, List.mem_append_right _ (.head _), ?_⟩
  -- A bracket, a quote, a letter or a sign, or else a digit.
  rcases hc with rfl | rfl | rfl | rfl | rfl | rfl | rfl | hdigit
  iterate 7
    · decide
  · obtain ⟨hlow, hhigh⟩ := Syntax.isDigit_bounds hdigit
    simp [Text.isBlank]
    omega

/-- A text that writes a value is read as that value is. -/
theorem parse?_of_written {json : Json} (h : Written json text) : parse? text = ofJson? json := by
  rw [parse?, all_isBlank_of_written h, if_neg (by decide), parse?_eq_some_iff.2 h,
    Option.bind_some]

/-- Options are listed by the members of their JSON form. -/
theorem listedIn_of_toJson {options : HostOptions} {members : List (String × Json)}
    (h : options.toJson = .object members) : options.ListedIn members := by
  obtain rfl := Json.object.inj h
  exact ⟨.given (.of_filter rfl) rfl, .given (.of_filter rfl) rfl,
    .given (.of_filter rfl) options.compile.isMeant_toJson⟩

/-- The JSON form of options is written as it is rendered. -/
theorem written_render_toJson (options : HostOptions) :
    Written options.toJson options.toJson.render := by
  have hstrings : ∀ texts : List String,
      Written (.array (texts.map .string)) (render (.array (texts.map .string))) := by
    refine fun texts => written_render_array fun item hitem => ?_
    obtain ⟨text, -, rfl⟩ := List.mem_map.1 hitem
    exact written_render_string text
  refine written_render_object fun member hmember => ?_
  simp only [List.mem_cons, List.not_mem_nil, or_false] at hmember
  rcases hmember with rfl | rfl | rfl
  · exact hstrings _
  · exact hstrings _
  · exact options.compile.written_render_toJson

/-- Options are read back from the text of their JSON form. -/
theorem parse?_render_toJson (options : HostOptions) :
    parse? options.toJson.render = some options := by
  rw [parse?_of_written options.written_render_toJson]
  exact (ofJson?_eq_some_iff_listedIn (.object _)).2 (listedIn_of_toJson rfl)

/-- Only texts of records, and blank ones, are read as options. -/
theorem exists_recordOf_of_parse? {options : HostOptions} (h : parse? text = some options) :
    text.all Text.isBlank = true ∨
      ∃ json members, Written json text ∧ RecordOf fieldNames json members := by
  rw [parse?] at h
  split at h
  · rename_i hblank
    exact .inl hblank
  · obtain ⟨json, hjson, hread⟩ := Option.bind_eq_some_iff.1 h
    obtain ⟨values, hvalues, -⟩ := Option.bind_eq_some_iff.1 hread
    obtain ⟨members, hmembers⟩ := exists_recordOf hvalues
    exact .inr ⟨json, members, parse?_eq_some_iff.1 hjson, hmembers⟩

/-- Only the members that are named after a field count. -/
theorem ofJson?_congr {json json' : Json} {members members' : List (String × Json)}
    (h : RecordOf fieldNames json members) (h' : RecordOf fieldNames json' members')
    (heq : ∀ name ∈ fieldNames, members'.filter (fun member => member.1 == name) =
      members.filter fun member => member.1 == name) : ofJson? json' = ofJson? json := by
  have hmember : ∀ name ∈ fieldNames, member? name members' = member? name members :=
    fun name hname => by rw [member?, member?, heq name hname]
  rw [ofJson?_of_recordOf h, ofJson?_of_recordOf h', hmember "extensions" (by decide),
    hmember "excludeDirs" (by decide), hmember "compile" (by decide)]

/-- Fields of the host's options cannot be `null`. -/
theorem spoilt_of_null {members : List (String × Json)} {name : String}
    (hname : name ∈ fieldNames) (h : (name, .null) ∈ members) : Spoilt members := by
  have hstrings : ∀ texts, ¬IsStrings texts .null := fun _ h => by cases h
  have hcompile : ∀ options : CompileOptions, ¬options.IsMeant .null := by
    rintro options ⟨members, hrecord, -⟩
    cases hrecord
  simp only [fieldNames, List.mem_cons, List.not_mem_nil, or_false] at hname
  rcases hname with rfl | rfl | rfl
  · exact .inl (.of_null hstrings h)
  · exact .inr (.inl (.of_null hstrings h))
  · exact .inr (.inr (.of_null hcompile h))

/-- How a text is read as options depends on the members of the record that it writes, and on these
only as far as they are named after a field.

The text is read as the options that the members list, with the default for each field that is left
out. It is unreadable exactly if a field is named twice or has a value that is not of its kind, such
as `null`, in the record or in the record of the compiler's options. Two texts that give the same
values to the same fields are read alike, whatever their forms. All options are read from some
text, and texts of other values than records are not read unless they are blank. -/
theorem read_by_fields {text : List Char} {json : Json} {members : List (String × Json)}
    (htext : Written json text) (hrecord : RecordOf fieldNames json members) :
    (∀ options, parse? text = some options ↔ options.ListedIn members) ∧
      (parse? text = none ↔ Spoilt members) ∧
      (∀ name ∈ fieldNames, (name, .null) ∈ members → parse? text = none) ∧
      (∀ inner innerMembers, ("compile", inner) ∈ members →
        RecordOf CompileOptions.fieldNames inner innerMembers →
        (CompileOptions.Spoilt innerMembers ∨
          ∃ name ∈ CompileOptions.fieldNames, (name, .null) ∈ innerMembers) →
        parse? text = none) ∧
      (∀ text' json' members', Written json' text' → RecordOf fieldNames json' members' →
        (∀ name ∈ fieldNames, members'.filter (fun member => member.1 == name) =
          members.filter fun member => member.1 == name) → parse? text' = parse? text) ∧
      (∀ options : HostOptions, parse? options.toJson.render = some options) ∧
      ∀ text' options, parse? text' = some options → text'.all Text.isBlank = true ∨
        ∃ json' members', Written json' text' ∧ RecordOf fieldNames json' members' := by
  have hread := parse?_of_written htext
  have hnone : Spoilt members → parse? text = none := fun h =>
    hread.trans ((ofJson?_eq_none_iff_spoilt hrecord).2 h)
  refine ⟨fun options => ?_, ?_, fun name hname hnull => ?_, ?_, ?_, parse?_render_toJson,
    fun _ _ => exists_recordOf_of_parse?⟩
  · rw [hread, ofJson?_eq_some_iff_listedIn hrecord]
  · rw [hread, ofJson?_eq_none_iff_spoilt hrecord]
  · exact hnone (spoilt_of_null hname hnull)
  · intro inner innerMembers hmem hinner hbad
    have hspoilt : CompileOptions.Spoilt innerMembers := by
      rcases hbad with hspoilt | ⟨name, hname, hnull⟩
      · exact hspoilt
      · exact CompileOptions.spoilt_of_null hname hnull
    -- The inner record means no options, and so spoils the field it stands in.
    have hmeant := CompileOptions.not_isMeant_of_spoilt hinner hspoilt
    exact hnone (.inr (.inr (.inr ⟨inner, hmem, hmeant⟩)))
  · intro text' json' members' htext' hrecord' heq
    rw [hread, parse?_of_written htext', ofJson?_congr hrecord hrecord' heq]

/-- Some of the fields, in another order and with another member before them, among blanks. The
options of the compiler are an array that ends after its first item. -/
theorem read_by_fields_partial :
    RecordOf fieldNames (.object [("x", .null), ("compile", .array [.string "server"]),
      ("extensions", .array [])]) [("x", .null), ("compile", .array [.string "server"]),
      ("extensions", .array [])] ∧
    parse? ([' '] ++ (render (.object [("x", .null), ("compile", .array [.string "server"]),
      ("extensions", .array [])]) ++ ['\n'])) =
      some { extensions := [], compile := { target := .server } } := by
  have htext : Written (.object [("x", .null), ("compile", .array [.string "server"]),
      ("extensions", .array [])]) ([' '] ++ (render (.object [("x", .null),
      ("compile", .array [.string "server"]), ("extensions", .array [])]) ++ ['\n'])) := by
    refine .blanks (fun c hc => .inl (List.mem_singleton.1 hc)) (written_render_object ?_)
      fun c hc => .inr (.inr (.inl (List.mem_singleton.1 hc)))
    intro member hmember
    simp only [List.mem_cons, List.not_mem_nil, or_false] at hmember
    rcases hmember with rfl | rfl | rfl
    · exact .null
    · refine written_render_array fun item hitem => ?_
      rw [List.mem_singleton.1 hitem]
      exact written_render_string _
    · exact .emptyArray .nil
  obtain ⟨hread, -⟩ := read_by_fields htext (.object _)
  refine ⟨.object _, (hread _).2 ?_⟩
  exact {
    extensions := .given (.of_filter rfl) rfl
    excludeDirs := .leftOut (filter_eq_nil_iff_absent.1 rfl)
    compile := .given (.of_filter rfl) ⟨_, .array (by decide), {
      target := .given (.of_filter rfl) (.inl rfl)
      moduleName := .leftOut (filter_eq_nil_iff_absent.1 rfl)
      serverModuleName := .leftOut (filter_eq_nil_iff_absent.1 rfl)
      conditionalComponent := .leftOut (filter_eq_nil_iff_absent.1 rfl)
      conditionProp := .leftOut (filter_eq_nil_iff_absent.1 rfl) }⟩ }

end HostOptions

end MarkupCompiler
