import MarkupCompiler.Compile.Error
import MarkupCompiler.Proofs.JsonRecords

/-!
# Errors in JSON texts

A host is told about an error in JSON. Every object text that lists the fields of an error is read
as this error and as no other (`ofJson?_object_eq_some_iff`): whatever the order of the fields,
whatever stands besides them, and with an absent location or cause given as `null` or left out. The
text that the compiler writes is one of them (`written_render_toJson`).
-/

namespace MarkupCompiler

open Json

/-! ## Locations -/

namespace Location

/-- The names of the fields of a location. -/
def fieldNames : List String := ["line", "column"]

/-- The members that give a location. -/
structure ListedIn (members : List (String × Json)) (location : Location) : Prop where
  line : FieldOf IsWord "line" members location.line
  column : FieldOf IsWord "column" members location.column

/-- The values that mean a location. -/
def IsMeant (location : Location) (json : Json) : Prop :=
  ∃ members, RecordOf fieldNames json members ∧ location.ListedIn members

/-- A line and a column are read one after the other from the members of a record. -/
theorem ofJson?_of_recordOf {json : Json} {members : List (String × Json)}
    (h : RecordOf fieldNames json members) :
    ofJson? json = do
      let line ← (member? "line" members).bind (fieldOf word32?)
      let column ← (member? "column" members).bind (fieldOf word32?)
      return ⟨line, column⟩ := by
  have hfields : json.fields? fieldNames = _ := h.fields? (by decide)
  rw [ofJson?, ← fieldNames, hfields]
  rcases mapM_eq_map_or_eq_none (member? · members) fieldNames with
    ⟨hsome, heq⟩ | ⟨name, hname, hnone, heq⟩
  · rw [heq, hsome "line" (by decide), hsome "column" (by decide)]
    rfl
  · rw [heq]
    simp only [fieldNames, List.mem_cons, List.not_mem_nil, or_false] at hname
    rcases hname with rfl | rfl <;> simp [hnone]

/-- A location is read from the values that mean it alone. -/
theorem ofJson?_eq_some_iff (json : Json) (location : Location) :
    ofJson? json = some location ↔ location.IsMeant json := by
  have hiff : ∀ {members}, RecordOf fieldNames json members →
      (ofJson? json = some location ↔ location.ListedIn members) := by
    intro members h
    rw [ofJson?_of_recordOf h]
    simp only [Option.bind_eq_bind, fieldOf_bind_eq_some_iff word32?_eq_some_iff]
    constructor
    · rintro ⟨_, hline, _, hcolumn, ⟨⟩⟩
      exact ⟨hline, hcolumn⟩
    · rintro ⟨hline, hcolumn⟩
      exact ⟨_, hline, _, hcolumn, rfl⟩
  constructor
  · intro h
    obtain ⟨values, hvalues, -⟩ := Option.bind_eq_some_iff.1 h
    obtain ⟨members, hmembers⟩ := exists_recordOf hvalues
    exact ⟨members, hmembers, (hiff hmembers).1 h⟩
  · rintro ⟨members, hmembers, hlisted⟩
    exact (hiff hmembers).2 hlisted

/-- A location whose numbers have 32 bits is meant by its JSON form. -/
theorem isMeant_toJson {location : Location} (hline : location.line < Nat.pow 2 32)
    (hcolumn : location.column < Nat.pow 2 32) : location.IsMeant location.toJson :=
  ⟨_, .object _, .given (.of_filter rfl) (isWord_ofNat hline),
    .given (.of_filter rfl) (isWord_ofNat hcolumn)⟩

/-- The JSON form of a location is written as it is rendered. -/
theorem written_render_toJson (location : Location) :
    Written location.toJson location.toJson.render := by
  refine written_render_object fun member hmember => ?_
  simp only [List.mem_cons, List.not_mem_nil, or_false] at hmember
  rcases hmember with rfl | rfl <;> exact written_render_ofNat _

end Location

/-! ## Errors -/

/-- Kinds of errors have different names. -/
theorem ErrorCode.text_injective : Function.Injective ErrorCode.text := by
  intro a b h
  cases a <;> cases b <;> simp_all [ErrorCode.text]

/-- A kind of errors is read from its name. -/
theorem ErrorCode.ofJson?_eq_some_iff (json : Json) (code : ErrorCode) :
    ErrorCode.ofJson? json = some code ↔ IsNamed ErrorCode.text code json :=
  choice?_eq_some_iff ErrorCode.text_injective [.parse, .positionLost, .unclassified]
    (fun a => by cases a <;> decide) json code

namespace CompileError

/-- The names of the fields of an error. -/
def fieldNames : List String := ["fileId", "code", "message", "location", "cause"]

/-- The fields that an error may be without. -/
def optionalNames : List String := ["location", "cause"]

/-- The members that give an error. -/
structure ListedIn (members : List (String × Json)) (error : CompileError) : Prop where
  fileId : FieldOf IsString "fileId" members error.fileId
  code : FieldOf (IsNamed ErrorCode.text) "code" members error.code
  message : FieldOf IsString "message" members error.message
  location : FieldOr (IsOptional Location.IsMeant) none "location" members error.location
  cause : FieldOr (IsOptional IsString) none "cause" members error.cause

/-- The fields of an error are read one after the other from the members of an object. -/
theorem ofJson?_object (members : List (String × Json)) :
    ofJson? (.object members) = do
      let fileId ← (member? "fileId" members).bind (fieldOf string?)
      let code ← (member? "code" members).bind (fieldOf ErrorCode.ofJson?)
      let message ← (member? "message" members).bind (fieldOf string?)
      let location ← (member? "location" members).bind (fieldOr none (optional? Location.ofJson?))
      let cause ← (member? "cause" members).bind (fieldOr none (optional? string?))
      return { fileId, code, message, location, cause } := by
  rw [ofJson?, ← fieldNames, fields?]
  rcases mapM_eq_map_or_eq_none (member? · members) fieldNames with
    ⟨hsome, heq⟩ | ⟨name, hname, hnone, heq⟩
  · -- That the last two fields have to be there in an array does not concern an object.
    rw [heq, hsome "fileId" (by decide), hsome "code" (by decide), hsome "message" (by decide),
      hsome "location" (by decide), hsome "cause" (by decide)]
    rfl
  · rw [heq]
    simp only [fieldNames, List.mem_cons, List.not_mem_nil, or_false] at hname
    rcases hname with rfl | rfl | rfl | rfl | rfl <;> simp [hnone]

/-- An object is read as an error exactly if it lists the fields of the error. -/
theorem ofJson?_object_eq_some_iff {members : List (String × Json)} {error : CompileError} :
    ofJson? (.object members) = some error ↔ error.ListedIn members := by
  rw [ofJson?_object]
  simp only [Option.bind_eq_bind, fieldOf_bind_eq_some_iff string?_eq_some_iff,
    fieldOf_bind_eq_some_iff ErrorCode.ofJson?_eq_some_iff,
    fieldOr_bind_eq_some_iff (optional?_eq_some_iff Location.ofJson?_eq_some_iff rfl),
    fieldOr_bind_eq_some_iff (optional?_eq_some_iff string?_eq_some_iff rfl)]
  constructor
  · rintro ⟨_, hfileId, _, hcode, _, hmessage, _, hlocation, _, hcause, ⟨⟩⟩
    exact ⟨hfileId, hcode, hmessage, hlocation, hcause⟩
  · rintro ⟨hfileId, hcode, hmessage, hlocation, hcause⟩
    exact ⟨_, hfileId, _, hcode, _, hmessage, _, hlocation, _, hcause, rfl⟩

/-! ## Members that make no difference -/

/-- Two objects say the same about a field: they have the same members of that name, or a field that
an error may be without is `null` or left out in both. -/
def AlikeIn (members members' : List (String × Json)) (name : String) : Prop :=
  members'.filter (fun member => member.1 == name) =
      members.filter (fun member => member.1 == name) ∨
    name ∈ optionalNames ∧ (Absent name members ∨ GivenOnce name .null members) ∧
      (Absent name members' ∨ GivenOnce name .null members')

variable {members members' : List (String × Json)}

/-- A field that has to be there has the same value in both objects. -/
theorem AlikeIn.member?_eq {name : String} (h : AlikeIn members members' name)
    (hname : name ∉ optionalNames) : member? name members' = member? name members := by
  rcases h with heq | ⟨hoptional, -⟩
  · rw [member?, member?, heq]
  · exact absurd hoptional hname

/-- A field that may be missing is read alike in both objects. -/
theorem AlikeIn.optional_eq {α : Type} {read : Json → Option α} {name : String}
    (h : AlikeIn members members' name) :
    (member? name members').bind (fieldOr none (optional? read)) =
      (member? name members).bind (fieldOr none (optional? read)) := by
  have hnothing : ∀ members : List (String × Json), Absent name members ∨
      GivenOnce name .null members →
      (member? name members).bind (fieldOr none (optional? read)) = some none := by
    rintro members (habsent | hgiven)
    · rw [member?_of_absent habsent]
      rfl
    · rw [member?_of_givenOnce hgiven]
      rfl
  rcases h with heq | ⟨-, hmembers, hmembers'⟩
  · rw [member?, member?, heq]
  · rw [hnothing members hmembers, hnothing members' hmembers']

/-- Objects that say the same about each field are read alike. -/
theorem ofJson?_object_congr (h : ∀ name ∈ fieldNames, AlikeIn members members' name) :
    ofJson? (.object members') = ofJson? (.object members) := by
  rw [ofJson?_object, ofJson?_object, (h "fileId" (by decide)).member?_eq (by decide),
    (h "code" (by decide)).member?_eq (by decide),
    (h "message" (by decide)).member?_eq (by decide), (h "location" (by decide)).optional_eq,
    (h "cause" (by decide)).optional_eq]

/-! ## The text of an error -/

/-- An error is listed by the members of its JSON form. -/
theorem listedIn_of_toJson {error : CompileError} {members : List (String × Json)}
    (hlocation : ∀ location ∈ error.location,
      location.line < Nat.pow 2 32 ∧ location.column < Nat.pow 2 32)
    (h : error.toJson = .object members) : error.ListedIn members := by
  obtain rfl := Json.object.inj h
  refine ⟨.given (.of_filter rfl) rfl, .given (.of_filter rfl) (.inl rfl),
    .given (.of_filter rfl) rfl, .given (.of_filter rfl) ?_, .given (.of_filter rfl) ?_⟩
  · cases hsome : error.location with
    | none => exact rfl
    | some location =>
      obtain ⟨hline, hcolumn⟩ := hlocation location hsome
      exact Location.isMeant_toJson hline hcolumn
  · cases error.cause <;> exact rfl

/-- An error is written by the text of its JSON form. -/
theorem written_render_toJson (error : CompileError) :
    Written error.toJson error.toJson.render := by
  refine written_render_object fun member hmember => ?_
  simp only [List.mem_cons, List.not_mem_nil, or_false] at hmember
  rcases hmember with rfl | rfl | rfl | rfl | rfl
  iterate 3
    · exact written_render_string _
  · cases error.location with
    | none => exact .null
    | some location => exact location.written_render_toJson
  · cases error.cause with
    | none => exact .null
    | some cause => exact written_render_string cause

/-- An error survives its JSON form: it is read back from the text of that form, and from every text
that writes an object with its fields, once each, in any order and among any others. A field for the
location or the cause may be left out or be `null` if there is none. No other object is read as the
error. Texts of objects that say the same about each field are read alike, as an error or not. -/
theorem json_round_trip (error : CompileError) (hlocation : ∀ location ∈ error.location,
    location.line < Nat.pow 2 32 ∧ location.column < Nat.pow 2 32) :
    (parse? error.toJson.render).bind ofJson? = some error ∧
      (∀ members text, Written (.object members) text →
        ((parse? text).bind ofJson? = some error ↔ error.ListedIn members)) ∧
      ∀ members members' text text', Written (.object members) text →
        Written (.object members') text' →
        (∀ name ∈ fieldNames, AlikeIn members members' name) →
        (parse? text').bind ofJson? = (parse? text).bind ofJson? := by
  have hiff : ∀ members text, Written (.object members) text →
      ((parse? text).bind ofJson? = some error ↔ error.ListedIn members) := by
    intro members text htext
    rw [parse?_eq_some_iff.2 htext, Option.bind_some, ofJson?_object_eq_some_iff]
  refine ⟨?_, hiff, ?_⟩
  · exact (hiff _ _ error.written_render_toJson).2 (listedIn_of_toJson hlocation rfl)
  · intro members members' text text' htext htext' halike
    rw [parse?_eq_some_iff.2 htext, parse?_eq_some_iff.2 htext', Option.bind_some,
      Option.bind_some, ofJson?_object_congr halike]

/-- The fields in another order, with one more among them, the location as an array and no cause. -/
theorem json_round_trip_reordered :
    4294967295 < Nat.pow 2 32 ∧
      (parse? (render (.object [("location", .array [.ofNat 4294967295, .ofNat 0]),
        ("code", .string "PARSE_ERROR"), ("x", .array []), ("message", .string "\n"),
        ("fileId", .string "a")]))).bind ofJson? =
        some
          { fileId := "a"
            code := .parse
            message := "\n"
            location := some ⟨4294967295, 0⟩ } := by
  obtain ⟨-, hiff, -⟩ := json_round_trip
    { fileId := "a", code := .parse, message := "\n", location := some ⟨4294967295, 0⟩ } (by
      rintro location hsome
      obtain rfl := Option.some.inj hsome
      decide)
  refine ⟨by decide, (hiff _ _ (written_render_object ?_)).2 ?_⟩
  · intro member hmember
    simp only [List.mem_cons, List.not_mem_nil, or_false] at hmember
    rcases hmember with rfl | rfl | rfl | rfl | rfl
    · refine written_render_array fun item hitem => ?_
      simp only [List.mem_cons, List.not_mem_nil, or_false] at hitem
      rcases hitem with rfl | rfl <;> exact written_render_ofNat _
    · exact written_render_string _
    · exact .emptyArray .nil
    · exact written_render_string _
    · exact written_render_string _
  · exact {
      fileId := .given (.of_filter rfl) rfl
      code := .given (.of_filter rfl) (.inl rfl)
      message := .given (.of_filter rfl) rfl
      location := .given (.of_filter rfl) ⟨_, .array (by decide),
        .given (.of_filter rfl) (isWord_ofNat (by decide)),
        .given (.of_filter rfl) (isWord_ofNat (by decide))⟩
      cause := .leftOut (filter_eq_nil_iff_absent.1 rfl) }

end CompileError

end MarkupCompiler
