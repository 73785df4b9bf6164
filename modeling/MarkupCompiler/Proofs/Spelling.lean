import MarkupCompiler.Proofs.Scanning

/-!
# How names and texts are spelled

A name or text that is read consists of characters of the source, apart from line ends that are
unified and from what escapes stand for. Of all characters only two matter to the code that is made
of a name or text: the dollar sign, which the names of helpers are told by, and the ampersand, which
begins a character reference. `Spelled` says that these two come from the source. All names and
texts of a tree are spelled so (`Expr.IsSpelled`) if those of its tokens are.
-/

namespace MarkupCompiler.Text

/-! ## Texts -/

/-- A word has a dollar sign or an ampersand in it only if the text has that it was read from,
unless the text has escapes. -/
def Spelled (text : List Char) (word : String) : Prop :=
  '\\' ∉ text → ∀ c ∈ ['$', '&'], c ∈ word.toList → c ∈ text

variable {text rest : List Char} {word : String}

/-- A word with neither of the two characters is spelled in any text. -/
theorem spelled_of_forall_not_mem (h : ∀ c ∈ ['$', '&'], c ∉ word.toList) : Spelled text word :=
  fun _ c hc hword => absurd hword (h c hc)

/-- A word is spelled in a text if its characters are those of the text, or line feeds. -/
theorem spelled_ofList {chars : List Char}
    (h : '\\' ∉ text → ∀ c ∈ chars, c ∈ text ∨ c = '\n') : Spelled text (String.ofList chars) := by
  intro hescape c hc hword
  rw [String.toList_ofList] at hword
  rcases h hescape c hword with htext | rfl
  · exact htext
  · exact absurd hc (by decide)

/-- Two spelled texts make one. -/
theorem Spelled.append {first second : String} (hfirst : Spelled text first)
    (hsecond : Spelled text second) : Spelled text (first ++ second) := by
  intro hescape c hc hword
  rw [String.toList_append, List.mem_append] at hword
  exact hword.elim (hfirst hescape c hc) (hsecond hescape c hc)

/-- A private name is spelled like its word. -/
theorem Spelled.hash {name : String} (h : Spelled text name) : Spelled text ("#" ++ name) :=
  .append (spelled_of_forall_not_mem (by simp)) h

/-- A name with its namespace is spelled like the two. -/
theorem Spelled.namespaced {space name : String} (hspace : Spelled text space)
    (hname : Spelled text name) : Spelled text (space ++ ":" ++ name) :=
  .append (.append hspace (spelled_of_forall_not_mem (by simp))) hname

/-- The words of the properties of keywords. -/
theorem spelled_metaProperty : Spelled text "import" ∧ Spelled text "meta" ∧
    Spelled text "new" ∧ Spelled text "target" := by
  refine ⟨?_, ?_, ?_, ?_⟩ <;> exact spelled_of_forall_not_mem (by simp)

/-- What is spelled in a part of a text is spelled in the text. -/
theorem Spelled.mono (hsub : rest ⊆ text) (h : Spelled rest word) : Spelled text word :=
  fun hescape c hc hword => hsub (h (fun hrest => hescape (hsub hrest)) c hc hword)

end MarkupCompiler.Text

namespace MarkupCompiler.Syntax

open Text

/-! ## Names, strings and templates -/

variable {text : List Char}

/-- Without escapes, the characters of a name are those of the text. -/
theorem mem_of_mem_scanName (hescape : '\\' ∉ text) {skip : Nat} :
    (scanName skip text).name ⊆ text := by
  fun_induction scanName skip text with
  | case1 => exact List.nil_subset _
  | case2 skip c rest scan ih =>
    exact List.subset_cons_of_subset c (ih fun h => hescape (List.mem_cons_of_mem c h))
  | case3 c rest hpart scan ih =>
    exact List.cons_subset_cons c (ih fun h => hescape (List.mem_cons_of_mem c h))
  | case4 c _ hslash =>
    obtain rfl := eq_of_beq hslash
    exact absurd (.head _) hescape
  | case5 | case6 | case7 => exact List.nil_subset _

/-- Units that are all characters, each with a property. -/
def AllChars (p : Char → Prop) (units : List CodeUnit) : Prop := ∀ u ∈ units, ∃ c, u = .char c ∧ p c

/-- No unit has a bad character. -/
theorem allChars_nil (p : Char → Prop) : AllChars p [] := List.forall_mem_nil _

/-- One unit has the character it is for. -/
theorem allChars_singleton {p : Char → Prop} {c : Char} (hc : p c) : AllChars p [.char c] :=
  List.forall_mem_singleton.2 ⟨c, rfl, hc⟩

/-- Units in a row have the characters of both parts. -/
theorem AllChars.append {p : Char → Prop} {units rest : List CodeUnit} (h : AllChars p units)
    (hrest : AllChars p rest) : AllChars p (units ++ rest) := List.forall_mem_append.2 ⟨h, hrest⟩

variable {units : List CodeUnit} {scan : TemplateScan} {name : String}

/-- The text that characters spell has the property that they have. -/
theorem AllChars.unitsText {p : Char → Prop} (h : AllChars p units) :
    ∀ c ∈ (unitsText units).toList, p c := by
  unfold Syntax.unitsText
  rw [String.toList_ofList]
  induction units with
  | nil => exact nofun
  | cons u units ih =>
    obtain ⟨⟨c, rfl, hc⟩, hunits⟩ := List.forall_mem_cons.1 h
    rw [CodeUnit.joinBy, List.forall_mem_cons]
    exact ⟨hc, ih hunits⟩

/-- Without escapes, the units of a string literal are characters of the text. -/
theorem allChars_scanString {quote : Char} {skip written : Nat} (hescape : '\\' ∉ text)
    (hscan : scanString quote skip text = .closed units written) : AllChars (· ∈ text) units := by
  -- A character more in front keeps what is known of the rest.
  have hadd : ∀ {c : Char} {rest : List Char} {scan : StringScan} {more units : List CodeUnit}
      {written : Nat},
      (∀ {units written}, scan = .closed units written → AllChars (· ∈ rest) units) →
      AllChars (· ∈ c :: rest) more → scan.add more = .closed units written →
      AllChars (· ∈ c :: rest) units := by
    intro c rest scan more units written hrest hmore hscan
    cases scan with
    | closed tail n =>
      cases hscan
      refine hmore.append fun u hu => ?_
      obtain ⟨d, hd, hmem⟩ := hrest rfl u hu
      exact ⟨d, hd, List.mem_cons_of_mem c hmem⟩
    | unclosed => cases hscan
    | badEscape => cases hscan
  fun_induction scanString quote skip text generalizing units written with
  | case1 => cases hscan
  | case2 skip c rest ih =>
    exact hadd (ih fun h => hescape (List.mem_cons_of_mem c h)) (allChars_nil _) hscan
  | case3 =>
    cases hscan
    exact allChars_nil _
  | case4 => cases hscan
  | case5 c rest _ _ hslash =>
    obtain rfl := eq_of_beq hslash
    exact absurd (.head _) hescape
  | case6 => cases hscan
  | case7 => cases hscan
  | case8 c rest _ _ _ ih =>
    exact hadd (ih fun h => hescape (List.mem_cons_of_mem c h))
      (allChars_singleton (.head _)) hscan

/-- A string literal without escapes is spelled in the text. -/
theorem spelled_scanString {quote : Char} {skip written : Nat}
    (hscan : scanString quote skip text = .closed units written) :
    Spelled text (unitsText units) := by
  rw [← String.ofList_toList (s := unitsText units)]
  exact spelled_ofList fun hescape c hc => .inl ((allChars_scanString hescape hscan).unitsText c hc)

/-- A stretch of a template is spelled in a text: its raw text consists of characters of the text,
and so does what it stands for without escapes, apart from line feeds. -/
structure TemplateScan.IsSpelled (text : List Char) (scan : TemplateScan) : Prop where
  raw : scan.raw ⊆ text
  cooked : '\\' ∉ text → ∀ units ∈ scan.cooked, AllChars (fun c => c ∈ text ∨ c = '\n') units

/-- A stretch with a character more in front is spelled in the text with that character. -/
theorem TemplateScan.IsSpelled.add {c : Char} (h : scan.IsSpelled text)
    {more : Option (List CodeUnit)} (hmore : '\\' ∉ c :: text → ∀ units ∈ more,
      AllChars (fun d => d ∈ c :: text ∨ d = '\n') units) :
    (scan.add c more).IsSpelled (c :: text) := by
  refine ⟨List.cons_subset_cons c h.raw, fun hescape units hunits => ?_⟩
  obtain ⟨front, hfront, hunits⟩ := Option.bind_eq_some_iff.1 hunits
  obtain ⟨back, hback, hunits⟩ := Option.bind_eq_some_iff.1 hunits
  obtain rfl := Option.some.inj hunits
  refine (hmore hescape front hfront).append fun u hu => ?_
  obtain ⟨d, rfl, hd⟩ := h.cooked (fun h => hescape (List.mem_cons_of_mem c h)) back hback u hu
  exact ⟨d, rfl, hd.imp_left (List.mem_cons_of_mem c)⟩

/-- A stretch of a template is spelled in the text that it is read from. -/
theorem isSpelled_scanTemplate {skip : Nat} (hscan : scanTemplate skip text = some scan) :
    scan.IsSpelled text := by
  have hnil : ∀ (front : List Char) (units : List CodeUnit), units ∈ some [] →
      AllChars (fun c => c ∈ front ∨ c = '\n') units :=
    fun _ units hunits => Option.some.inj hunits ▸ allChars_nil _
  fun_induction scanTemplate skip text generalizing scan with
  | case1 => cases hscan
  | case2 skip c rest ih =>
    obtain ⟨tail, htail, rfl⟩ := Option.map_eq_some_iff.1 hscan
    exact (ih htail).add fun _ => hnil _
  | case3 | case4 =>
    cases hscan
    exact ⟨List.nil_subset _, fun _ => hnil _⟩
  | case5 c rest _ _ hslash =>
    rename_i ih
    obtain rfl := eq_of_beq hslash
    obtain ⟨tail, htail, rfl⟩ := Option.map_eq_some_iff.1 hscan
    exact (ih htail).add fun hescape => absurd (.head _) hescape
  | case6 c rest _ _ hslash _ ih =>
    obtain rfl := eq_of_beq hslash
    obtain ⟨tail, htail, rfl⟩ := Option.map_eq_some_iff.1 hscan
    exact (ih htail).add fun hescape => absurd (.head _) hescape
  -- A return counts as a line feed, or as nothing before one.
  | case7 c rest _ _ _ _ units =>
    rename_i ih
    obtain ⟨tail, htail, rfl⟩ := Option.map_eq_some_iff.1 hscan
    refine (ih htail).add fun _ front hfront => ?_
    obtain rfl := Option.some.inj hfront
    unfold units
    split
    · exact allChars_nil _
    · exact allChars_singleton (.inr rfl)
  | case8 c rest _ _ _ _ ih =>
    obtain ⟨tail, htail, rfl⟩ := Option.map_eq_some_iff.1 hscan
    refine (ih htail).add fun _ front hfront => ?_
    obtain rfl := Option.some.inj hfront
    exact allChars_singleton (.inl (.head _))

/-- Unified line ends are line feeds, and all else stays. -/
theorem mem_of_mem_unifyLineEnds {chars : List Char} :
    ∀ c ∈ unifyLineEnds chars, c ∈ chars ∨ c = '\n' := by
  fun_induction unifyLineEnds chars with
  | case1 rest ih =>
    refine List.forall_mem_cons.2 ⟨.inr rfl, fun c hc => (ih c hc).imp_left fun h => ?_⟩
    exact List.mem_cons_of_mem _ (List.mem_cons_of_mem _ h)
  | case2 d rest _ ih =>
    refine List.forall_mem_cons.2 ⟨?_, fun c hc => (ih c hc).imp_left (List.mem_cons_of_mem d)⟩
    split
    · exact .inr rfl
    · exact .inl (.head _)
  | case3 => exact nofun

/-! ## Trees -/

/-- A stretch of a template literal is spelled in a text. -/
def Quasi.IsSpelled (text : List Char) (quasi : Quasi) : Prop :=
  Spelled text quasi.raw ∧ ∀ cooked ∈ quasi.cooked, Spelled text cooked

/-- What a rest of a text spells, the text spells. -/
theorem Quasi.IsSpelled.mono {rest : List Char} {quasi : Quasi} (hsub : rest ⊆ text)
    (h : quasi.IsSpelled rest) : quasi.IsSpelled text :=
  ⟨h.1.mono hsub, fun cooked hcooked => (h.2 cooked hcooked).mono hsub⟩

/-- A stretch that is read from a text is spelled in it. -/
theorem TemplateScan.IsSpelled.quasi (h : scan.IsSpelled text) :
    Quasi.IsSpelled text ⟨String.ofList (unifyLineEnds scan.raw), scan.cooked.map unitsText⟩ := by
  refine ⟨spelled_ofList fun _ c hc => ?_, fun cooked hcooked => ?_⟩
  · exact (mem_of_mem_unifyLineEnds c hc).imp_left fun hraw => h.raw hraw
  · obtain ⟨units, hunits, rfl⟩ := Option.map_eq_some_iff.1 hcooked
    rw [← String.ofList_toList (s := unitsText units)]
    exact spelled_ofList fun hescape c hc => (h.cooked hescape units hunits).unitsText c hc

/-- A literal is spelled in a text. -/
def Literal.IsSpelled (text : List Char) : Literal → Prop
  | string value => Spelled text value
  | null | boolean _ | number _ | bigint | regexp => True

/-- A string is spelled by its characters. -/
@[simp] theorem Literal.isSpelled_string {value : String} :
    (string value).IsSpelled text ↔ Spelled text value := Iff.rfl

/-- A literal that is no string has nothing to be spelled. -/
@[simp] theorem Literal.isSpelled_of_no_string : null.IsSpelled text ∧
    (∀ value, (boolean value).IsSpelled text) ∧ (∀ value, (number value).IsSpelled text) ∧
      bigint.IsSpelled text ∧ regexp.IsSpelled text :=
  ⟨trivial, fun _ => trivial, fun _ => trivial, trivial, trivial⟩

/-- The name of a member is spelled in a text. -/
def MemberName.IsSpelled (text : List Char) : MemberName → Prop
  | plain name | hidden name => Spelled text name

/-- A member is spelled by its name. -/
@[simp] theorem MemberName.isSpelled_plain :
    (plain name).IsSpelled text ↔ Spelled text name := Iff.rfl

/-- So is a private member. -/
@[simp] theorem MemberName.isSpelled_hidden :
    (hidden name).IsSpelled text ↔ Spelled text name := Iff.rfl

/-- The tag of an element is spelled in a text. -/
def TagName.IsSpelled (text : List Char) : TagName → Prop
  | plain name => Spelled text name
  | namespaced space name => Spelled text space ∧ Spelled text name
  | path object members => Spelled text object ∧ ∀ member ∈ members, Spelled text member
  | self => True

/-- A tag is spelled by its name. -/
@[simp] theorem TagName.isSpelled_plain : (plain name).IsSpelled text ↔ Spelled text name := Iff.rfl

/-- With a name space, both names are spelled. -/
@[simp] theorem TagName.isSpelled_namespaced {space name : String} :
    (namespaced space name).IsSpelled text ↔ Spelled text space ∧ Spelled text name := Iff.rfl

/-- A path of members is spelled by all its names. -/
@[simp] theorem TagName.isSpelled_path {object : String} {members : List String} :
    (path object members).IsSpelled text ↔
      Spelled text object ∧ ∀ member ∈ members, Spelled text member := Iff.rfl

/-- The tag `this` is spelled anywhere. -/
@[simp] theorem TagName.isSpelled_self : self.IsSpelled text := trivial

mutual

/-- The names and texts of an expression are spelled in a text. -/
def Expr.IsSpelled (text : List Char) : Expr → Prop
  | .literal _ value => value.IsSpelled text
  | .template _ quasis values => (∀ q ∈ quasis, q.IsSpelled text) ∧ exprsSpelled text values
  | .ident _ name => Spelled text name
  | .metaProperty _ object property => Spelled text object ∧ Spelled text property
  | .superRef _ | .thisRef _ => True
  | .array _ items => itemsSpelled text items
  | .object _ properties => propertiesSpelled text properties
  | .arrow _ _ _ params body | .function _ _ _ params body =>
    exprsSpelled text params ∧ body.IsSpelled text
  | .classExpr _ parts => stmtsSpelled text parts
  | .assign _ _ e e' | .binary _ _ e e' | .index _ e e' _ => e.IsSpelled text ∧ e'.IsSpelled text
  | .update _ _ _ e | .unary _ _ e | .await _ e | .chain _ e | .paren _ e | .typed _ _ e =>
    e.IsSpelled text
  | .hasPrivate _ name right => Spelled text name ∧ right.IsSpelled text
  | .conditional _ test consequent alternate =>
    test.IsSpelled text ∧ consequent.IsSpelled text ∧ alternate.IsSpelled text
  | .sequence _ parts => exprsSpelled text parts
  | .yield _ _ operand => optionSpelled text operand
  | .call _ callee _ arguments _ | .construct _ callee _ arguments =>
    callee.IsSpelled text ∧ itemsSpelled text arguments
  | .importCall _ _ source options => source.IsSpelled text ∧ optionSpelled text options
  | .tagged _ tag _ quasis values =>
    tag.IsSpelled text ∧ (∀ q ∈ quasis, q.IsSpelled text) ∧ exprsSpelled text values
  | .member _ object name _ => object.IsSpelled text ∧ name.IsSpelled text
  | .markup m => m.IsSpelled text

/-- The names and texts of an expression that may be missing are spelled in a text. -/
def optionSpelled (text : List Char) : Option Expr → Prop
  | none => True
  | some e => e.IsSpelled text

/-- The names and texts of expressions are spelled in a text. -/
def exprsSpelled (text : List Char) : List Expr → Prop
  | [] => True
  | e :: es => e.IsSpelled text ∧ exprsSpelled text es

/-- The names and texts of an array element or argument are spelled in a text. -/
def Item.IsSpelled (text : List Char) : Item → Prop
  | .hole => True
  | .value value | .spread value => value.IsSpelled text

/-- The names and texts of array elements or arguments are spelled in a text. -/
def itemsSpelled (text : List Char) : List Item → Prop
  | [] => True
  | item :: items => item.IsSpelled text ∧ itemsSpelled text items

/-- The names and texts of a property are spelled in a text. -/
def Property.IsSpelled (text : List Char) : Property → Prop
  | .spread value | .shorthand value => value.IsSpelled text
  | .field key _ value | .shorthandDefault key value | .method _ key value =>
    key.IsSpelled text ∧ value.IsSpelled text

/-- The names and texts of properties are spelled in a text. -/
def propertiesSpelled (text : List Char) : List Property → Prop
  | [] => True
  | property :: properties => property.IsSpelled text ∧ propertiesSpelled text properties

/-- The names and texts of the body of a function are spelled in a text. -/
def Body.IsSpelled (text : List Char) : Body → Prop
  | .missing => True
  | .expr value => value.IsSpelled text
  | .block _ statements => stmtsSpelled text statements

/-- The names and texts of a statement are spelled in a text. -/
def Stmt.IsSpelled (text : List Char) : Stmt → Prop
  | .expr _ value | .operand value => value.IsSpelled text
  | .directive _ => True
  | .ret _ value => optionSpelled text value
  | .compound _ parts => stmtsSpelled text parts

/-- The names and texts of statements are spelled in a text. -/
def stmtsSpelled (text : List Char) : List Stmt → Prop
  | [] => True
  | s :: ss => s.IsSpelled text ∧ stmtsSpelled text ss

/-- The names and texts of markup are spelled in a text. -/
def Markup.IsSpelled (text : List Char) : Markup → Prop
  | .element e => e.IsSpelled text
  | .fragment _ children => childrenSpelled text children

/-- The names and texts of an element are spelled in a text. -/
def Element.IsSpelled (text : List Char) : Element → Prop
  | .mk _ tag attributes children =>
    tag.IsSpelled text ∧ attributesSpelled text attributes ∧ childrenSpelled text children

/-- The name and value of an attribute are spelled in a text. -/
def Attribute.IsSpelled (text : List Char) : Attribute → Prop
  | .spread value => value.IsSpelled text
  | .named name value => Spelled text name ∧ value.IsSpelled text

/-- The names and values of attributes are spelled in a text. -/
def attributesSpelled (text : List Char) : List Attribute → Prop
  | [] => True
  | a :: attributes => a.IsSpelled text ∧ attributesSpelled text attributes

/-- The value of an attribute is spelled in a text. -/
def AttributeValue.IsSpelled (text : List Char) : AttributeValue → Prop
  | .bare | .empty => True
  | .text raw => Spelled text raw
  | .expr value => value.IsSpelled text
  | .markup m => m.IsSpelled text

/-- The names and texts of a child are spelled in a text. -/
def Child.IsSpelled (text : List Char) : Child → Prop
  | .text raw => Spelled text raw
  | .markup m => m.IsSpelled text
  | .expr value | .spread value => value.IsSpelled text
  | .empty => True

/-- The names and texts of children are spelled in a text. -/
def childrenSpelled (text : List Char) : List Child → Prop
  | [] => True
  | child :: children => child.IsSpelled text ∧ childrenSpelled text children

end

/-- What is said of a list by its recursion is said of all its members. -/
theorem iff_forall_mem_of_cons {α : Type} {p : α → Prop} {total : List α → Prop} (hnil : total [])
    (hcons : ∀ a as, total (a :: as) ↔ p a ∧ total as) (as : List α) :
    total as ↔ ∀ a ∈ as, p a := by
  induction as with
  | nil => exact iff_of_true hnil nofun
  | cons a as ih => rw [hcons, ih, List.forall_mem_cons]

/-- Expressions are spelled one by one. -/
theorem exprsSpelled_iff {es : List Expr} :
    exprsSpelled text es ↔ ∀ e ∈ es, e.IsSpelled text :=
  iff_forall_mem_of_cons trivial (fun _ _ => Iff.rfl) es

/-- Items are spelled one by one. -/
theorem itemsSpelled_iff {items : List Item} :
    itemsSpelled text items ↔ ∀ item ∈ items, item.IsSpelled text :=
  iff_forall_mem_of_cons trivial (fun _ _ => Iff.rfl) items

/-- Properties are spelled one by one. -/
theorem propertiesSpelled_iff {properties : List Property} :
    propertiesSpelled text properties ↔ ∀ property ∈ properties, property.IsSpelled text :=
  iff_forall_mem_of_cons trivial (fun _ _ => Iff.rfl) properties

/-- Statements are spelled one by one. -/
theorem stmtsSpelled_iff {ss : List Stmt} :
    stmtsSpelled text ss ↔ ∀ s ∈ ss, s.IsSpelled text :=
  iff_forall_mem_of_cons trivial (fun _ _ => Iff.rfl) ss

/-- Attributes are spelled one by one. -/
theorem attributesSpelled_iff {attributes : List Attribute} :
    attributesSpelled text attributes ↔ ∀ a ∈ attributes, a.IsSpelled text :=
  iff_forall_mem_of_cons trivial (fun _ _ => Iff.rfl) attributes

/-- Children are spelled one by one. -/
theorem childrenSpelled_iff {children : List Child} :
    childrenSpelled text children ↔ ∀ child ∈ children, child.IsSpelled text :=
  iff_forall_mem_of_cons trivial (fun _ _ => Iff.rfl) children

/-- An expression is spelled if it is there. -/
theorem optionSpelled_iff {e? : Option Expr} :
    optionSpelled text e? ↔ ∀ e ∈ e?, e.IsSpelled text := by
  cases e? with
  | none => exact iff_of_true trivial nofun
  | some e => exact ⟨fun h _ he => Option.some.inj he ▸ h, fun h => h e rfl⟩

end MarkupCompiler.Syntax
