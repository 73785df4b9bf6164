import MarkupCompiler.Proofs.CursorPlace
import MarkupCompiler.Proofs.Parsing
import MarkupCompiler.Proofs.Terms

/-!
# Terms as tokens

The text of a term is read token by token. `Cursor.At` says that a cursor stands on the first token
of what is left of a text. From there an operand, an operator, a sign, a member name or a bracket is
read as the token that it is, if what is written after it does not go on with it. `begins` says what
the first tokens of a term tell a parser: it is no label, and no parameters of a function.
-/

namespace MarkupCompiler.Grammar

open Syntax Text

/-! ## Cursors in a text -/

/-- The cursor stands on the first token of a text, which is read from some offset on. -/
def Cursor.Reads (cursor : Cursor) (text : List Char) : Prop :=
  ∃ offset, readToken offset text = (cursor.token, cursor.here, cursor.after)

/-- What a cursor has noted on its way is what another has. -/
structure Cursor.SameNotes (cursor other : Cursor) : Prop where
  defaults : other.defaults = cursor.defaults
  exports : other.exports = cursor.exports
  noted : other.noted = cursor.noted

/-- Having the same notes passes on from cursor to cursor. -/
theorem Cursor.SameNotes.trans {a b c : Cursor} (h : a.SameNotes b) (h' : b.SameNotes c) :
    a.SameNotes c :=
  ⟨h'.defaults.trans h.defaults, h'.exports.trans h.exports, h'.noted.trans h.noted⟩

section

variable {cursor : Cursor} {text : List Char}

/-- Moving on notes nothing. -/
theorem Cursor.sameNotes_next (cursor : Cursor) : cursor.SameNotes cursor.next := ⟨rfl, rfl, rfl⟩

/-- The cursor moves to what stands after its token. -/
theorem Cursor.next_reads (cursor : Cursor) : cursor.next.Reads cursor.after :=
  ⟨cursor.token.span.stop, rfl⟩

/-- At the end of a text there is no token. -/
theorem Cursor.Reads.kind_of_nil (h : cursor.Reads []) : cursor.token.kind = .finish := by
  obtain ⟨offset, h⟩ := h
  have htoken := congrArg (fun result => result.1.kind) h
  exact htoken.symm

end

/-- The cursor stands in a whole text, on the first token of what is left of it. -/
structure Cursor.At (whole rest : List Char) (cursor : Cursor) : Prop where
  on : cursor.On whole
  reads : cursor.Reads rest

section

variable {whole rest : List Char} {cursor : Cursor} {kind : TokenKind}

/-- A blank before a token does not matter. -/
theorem Cursor.At.blank (h : cursor.At whole (' ' :: rest)) : cursor.At whole rest := by
  obtain ⟨hon, offset, hread⟩ := h
  exact ⟨hon, offset + 1, hread⟩

/-- A part of the text that is one token, and that no blank stands before. -/
theorem Cursor.At.token {part : List Char} (h : cursor.At whole (part ++ rest))
    (hpart : part.head?.any isSolid = true)
    (hscan : scanKind (part ++ rest) = (kind, part.length)) :
    cursor.token.kind = kind ∧ cursor.next.At whole rest ∧ cursor.here = part ++ rest ∧
      slice? whole cursor.token.span = some part := by
  cases part with
  | nil => cases hpart
  | cons c more =>
    obtain ⟨offset, hread⟩ := h.reads
    rw [List.cons_append, readToken_of_isSolid hpart offset (more ++ rest) hscan, Prod.mk.injEq,
      Prod.mk.injEq, ← List.cons_append, List.drop_left, List.take_left] at hread
    obtain ⟨htoken, hhere, hafter⟩ := hread
    refine ⟨by rw [← htoken], ⟨h.on.next, hafter ▸ cursor.next_reads⟩, hhere.symm, ?_⟩
    rcases hhere ▸ h.on.here with hnil | ⟨before, hwhole, hbefore⟩
    · cases hnil
    · refine slice?_eq_some.2 ⟨before, rest, hwhole, hbefore, ?_⟩
      rw [← htoken]

/-- A punctuator of one character that no blank stands before. -/
theorem Cursor.At.punct {c : Char} {p : Punct} (h : cursor.At whole (c :: rest))
    (hc : isSolid c = true) (hscan : scanKind (c :: rest) = (.punct p, 1)) :
    cursor.token.kind = .punct p ∧ cursor.next.At whole rest ∧ cursor.here = c :: rest := by
  obtain ⟨hkind, hnext, hhere, -⟩ := (show cursor.At whole ([c] ++ rest) from h).token hc hscan
  exact ⟨hkind, hnext, hhere⟩

/-- A word that no blank stands before. -/
theorem Cursor.At.word {name : List Char} (h : cursor.At whole (name ++ rest))
    (hname : isName name = true) (hrest : EndsName rest) :
    cursor.token.kind = .word (String.ofList name) (Keyword.ofName? name) ∧
      cursor.next.At whole rest ∧ cursor.here = name ++ rest := by
  have hsolid : name.head?.any isSolid = true := by
    obtain ⟨c, more, htext, hc, -⟩ := solid_of_isName hname []
    rw [List.append_nil] at htext
    rw [htext]
    exact hc
  obtain ⟨hkind, hnext, hhere, -⟩ := h.token hsolid (scanKind_name hname hrest)
  exact ⟨hkind, hnext, hhere⟩

/-! ## Operators that begin with `>` -/

/-- A cursor on `>` moved to the whole operator that begins with it. -/
def Cursor.widened (cursor : Cursor) : Cursor :=
  if cursor.token.kind == .punct .gt then
    match scanPunct? Punct.greater cursor.here with
    | some p => cursor.narrow p
    | none => cursor
  else cursor

/-- The parser that completes an operator moves to it. -/
@[simp] theorem widenGreater_apply (scope : Scope) (cursor : Cursor) :
    widenGreater scope cursor = .ok ((), cursor.widened) := by
  unfold Cursor.widened
  rw [widenGreater, Parser.bind_apply, at?_apply, ok_bind, Parser.ite_apply]
  dsimp only
  split
  · rw [Parser.bind_apply, Parser.get_apply, ok_bind]
    dsimp only
    cases scanPunct? Punct.greater cursor.here <;> rfl
  · rfl

/-- Only `>` is completed to an operator. -/
theorem Cursor.widened_of_ne (h : cursor.token.kind ≠ .punct .gt) : cursor.widened = cursor :=
  if_neg (by simpa using h)

/-- An operator is completed once. -/
theorem Cursor.widened_widened (cursor : Cursor) : cursor.widened.widened = cursor.widened := by
  unfold widened
  split
  · cases hscan : scanPunct? Punct.greater cursor.here with
    | none => simp_all
    | some p =>
      dsimp only
      split
      · rw [show (cursor.narrow p).here = cursor.here from rfl, hscan]
        rfl
      · rfl
  · simp_all

/-- Completing an operator notes nothing. -/
theorem Cursor.sameNotes_widened (cursor : Cursor) : cursor.SameNotes cursor.widened := by
  unfold widened
  split
  · split
    · exact ⟨rfl, rfl, rfl⟩
    · exact ⟨rfl, rfl, rfl⟩
  · exact ⟨rfl, rfl, rfl⟩

/-! ## Loops -/

variable {α β : Type} {scope : Scope} {step : α → Parser (α ⊕ β)} {state state' : α} {next : Cursor}

/-- More rounds than a loop needs do not change its result. -/
theorem iterate_mono {rounds : Nat} {result : β × Cursor}
    (h : iterate step rounds state scope cursor = .ok result) {more : Nat} (hle : rounds ≤ more) :
    iterate step more state scope cursor = .ok result := by
  induction rounds generalizing state cursor more with
  | zero =>
    -- Without rounds a loop fails, and here it gave a result.
    obtain ⟨complaints, hfail⟩ := failHere_apply (α := β) scope cursor .tooDeep
    rw [iterate, hfail] at h
    cases h
  | succ rounds ih =>
    obtain ⟨more, rfl⟩ := Nat.exists_eq_add_of_le' (Nat.lt_of_lt_of_le (Nat.succ_pos _) hle)
    rw [iterate, Parser.bind_apply] at h ⊢
    cases hstep : step state scope cursor with
    | error complaints =>
      rw [hstep] at h
      cases h
    | ok result =>
      obtain ⟨sum, after⟩ := result
      rw [hstep] at h
      cases sum with
      | inl state => exact ih h (by omega)
      | inr result => exact h

/-- A loop gives what it gives from the next round on, if that begins further on in the text. -/
theorem loop_of_step {result : β × Cursor}
    (hstep : step state scope cursor = .ok (.inl state', next))
    (hless : next.here.length < cursor.here.length)
    (h : loop state' step scope next = .ok result) : loop state step scope cursor = .ok result := by
  have hrest : iterate step (cursor.here.length + 1) state' scope next = .ok result :=
    iterate_mono h (by omega)
  show iterate step (cursor.here.length + 1 + 1) state scope cursor = _
  rw [iterate, Parser.bind_apply, hstep]
  exact hrest

/-- A loop that ends in its first round gives what that round gives. -/
theorem loop_of_done {result : β} (hstep : step state scope cursor = .ok (.inr result, next)) :
    loop state step scope cursor = .ok (result, next) := by
  show iterate step (cursor.here.length + 1 + 1) state scope cursor = _
  rw [iterate, Parser.bind_apply, hstep]
  rfl

end

/-! ## Operands that are one token -/

section

variable {whole rest : List Char} {cursor : Cursor}

/-- What a term begins with: no blank, no operator goes on with it, and it is no command line. -/
def isFront (c : Char) : Bool := isSolid c && c != '=' && c != '#'

/-- A term may begin with any character of a name. -/
theorem isFront_of_isNamePart {c : Char} (h : isNamePart c = true) : isFront c = true := by
  have hne {d : Char} (hd : isNamePart d = false) : (c != d) = true := by
    rw [bne_iff_ne]
    rintro rfl
    rw [h] at hd
    cases hd
  rw [isFront, isSolid_of_isNamePart h, hne (by decide), hne (by decide)]
  rfl

/-- A text that a term may begin with has a first character. -/
theorem exists_cons_of_isFront {text : List Char} (h : text.head?.any isFront = true) :
    ∃ c more, text = c :: more ∧ isSolid c = true ∧ c ≠ '=' ∧ c ≠ '#' := by
  cases text with
  | nil => cases h
  | cons c more =>
    simp only [List.head?_cons, Option.any_some, isFront, Bool.and_eq_true, bne_iff_ne,
      and_assoc] at h
    exact ⟨c, more, rfl, h⟩

/-- An operand begins as a term may. -/
theorem isFront_of_leaf (token : Leaf) : token.text.head?.any isFront = true := by
  obtain ⟨c, more, htext⟩ := List.exists_cons_of_ne_nil token.text_ne_nil
  obtain ⟨hscan, -, hnumeric | ⟨⟨c, hc, more, htext⟩, -⟩ | ⟨hname, -⟩⟩ := token.kind_cases
  · have hstarts : startsNumber token.text = true := by
      apply startsNumber_of_isNumeric
      rw [hscan]
      exact hnumeric
    rw [htext, startsNumber, Bool.or_eq_true, Bool.and_eq_true, beq_iff_eq] at hstarts
    rw [htext]
    rcases hstarts with hdigit | ⟨rfl, -⟩
    · exact isFront_of_isNamePart (isNamePart_of_isDigit hdigit)
    · rfl
  · rw [htext]
    simp only [List.mem_cons, List.not_mem_nil, or_false] at hc
    rcases hc with rfl | rfl <;> rfl
  · rw [htext] at hname ⊢
    exact isFront_of_isNamePart (isNamePart_of_isName hname c (.head _))

/-- What holds of the first character holds of it with more text behind. -/
theorem any_head?_append {p : Char → Bool} {first : List Char} (h : first.head?.any p = true)
    (second : List Char) : (first ++ second).head?.any p = true := by
  cases first with
  | nil => cases h
  | cons c first => exact h

/-- A term begins with no blank, and with nothing that an operator goes on with. -/
theorem isFront_text : ∀ t : Term, t.text.head?.any isFront = true
  | .leaf token => isFront_of_leaf token
  | .array _ | .paren _ => rfl
  | .unary op _ => by cases op <;> rfl
  | .member left _ _ | .index left _ _ | .call left _ _ | .binary _ left _
  | .conditional left _ _ => by
    simp only [Term.text, List.append_assoc]
    exact any_head?_append (isFront_text left) _
  | .chain inner => isFront_text inner

/-- An operand is read as its token, unless what follows belongs to it. -/
theorem scanKind_leaf (token : Leaf) (hname : EndsName rest)
    (hnumber : ∀ c ∈ rest.head?, c ∈ numberEnds ∧ (c = '.' → takesDot token.text = false)) :
    scanKind (token.text ++ rest) = (token.kind, token.text.length) := by
  obtain ⟨hscan, -, hnumeric | ⟨⟨c, hc, more, htext⟩, hstring⟩ | ⟨hisName, hword⟩⟩ :=
    token.kind_cases
  · cases rest with
    | nil =>
      rw [List.append_nil]
      exact hscan
    | cons c rest => exact scanKind_append hnumeric hscan (hnumber c rfl).1 (hnumber c rfl).2 rest
  · cases hkind : token.kind with
    | string value =>
      rw [hkind, htext] at hscan
      rw [htext]
      exact scanKind_append_of_quote (by simpa using hc) hscan rest
    | _ =>
      rw [hkind] at hstring
      cases hstring
  · rw [hword]
    exact scanKind_name hisName hname

end

/-! ## Operators -/

section

variable {whole more : List Char} {cursor : Cursor}

/-- A punctuator between blanks. -/
theorem Cursor.At.spaced {p : Punct}
    (h : cursor.At whole (' ' :: (p.text.toList ++ ' ' :: more))) :
    cursor.widened.token.kind = .punct p ∧ cursor.widened.next.At whole (' ' :: more) ∧
      cursor.here = p.text.toList ++ ' ' :: more := by
  obtain ⟨offset, hread⟩ := h.reads
  -- A token never goes on behind `>`, so that the longer operators are only found when it is
  -- completed.
  by_cases hp : p ∈ Punct.greater
  · have hraw : ∃ span, readToken offset (' ' :: (p.text.toList ++ ' ' :: more)) =
        (⟨.punct .gt, span, false⟩, p.text.toList ++ ' ' :: more,
          (p.text.toList ++ ' ' :: more).drop 1) ∧
        scanPunct? Punct.greater (p.text.toList ++ ' ' :: more) = some p := by
      simp only [Punct.greater, List.mem_cons, List.not_mem_nil, or_false] at hp
      rcases hp with rfl | rfl | rfl | rfl | rfl | rfl <;> exact ⟨_, rfl, rfl⟩
    obtain ⟨span, hraw, hscan⟩ := hraw
    rw [hraw, Prod.mk.injEq, Prod.mk.injEq] at hread
    obtain ⟨htoken, hhere, -⟩ := hread
    have hwide : cursor.widened = cursor.narrow p := by
      unfold Cursor.widened
      rw [if_pos (by rw [← htoken]; rfl), ← hhere, hscan]
    have hafter : (cursor.narrow p).after = ' ' :: more := by
      show cursor.here.drop p.text.length = _
      rw [← hhere, ← String.length_toList, List.drop_left]
    rw [hwide]
    exact ⟨rfl, ⟨(h.on.narrow hhere.symm).next, hafter ▸ (cursor.narrow p).next_reads⟩, hhere.symm⟩
  · have hraw : ∃ span, readToken offset (' ' :: (p.text.toList ++ ' ' :: more)) =
        (⟨.punct p, span, false⟩, p.text.toList ++ ' ' :: more, ' ' :: more) := by
      cases p <;> first | exact ⟨_, rfl⟩ | exact absurd (by decide) hp
    obtain ⟨span, hraw⟩ := hraw
    rw [hraw, Prod.mk.injEq, Prod.mk.injEq] at hread
    obtain ⟨htoken, hhere, hafter⟩ := hread
    have hkind : cursor.token.kind = .punct p := by rw [← htoken]
    have hwide : cursor.widened = cursor := by
      apply Cursor.widened_of_ne
      rw [hkind]
      rintro ⟨⟩
      exact hp (by decide)
    rw [hwide]
    exact ⟨hkind, ⟨h.on.next, hafter ▸ cursor.next_reads⟩, hhere.symm⟩

/-- The operator that a token is, where `in` is one. -/
def binaryOpOf : TokenKind → Option BinaryOp
  | .punct p => BinaryOp.ofPunct? p
  | .word _ (some .instanceofKw) => some .instanceOf
  | .word _ (some .inKw) => some .isIn
  | _ => none

/-- The parser for an operator looks at the completed operator. -/
theorem binaryOp?_apply {scope : Scope} (h : scope.inOperator = true) :
    binaryOp? scope cursor = .ok (binaryOpOf cursor.widened.token.kind, cursor.widened) := by
  rw [binaryOp?, Parser.bind_apply, widenGreater_apply, ok_bind, Parser.bind_apply, token_apply,
    ok_bind]
  dsimp only
  generalize cursor.widened = cursor
  obtain ⟨⟨kind, span, onNewLine⟩, here, after, lastStop, defaults, exports, noted⟩ := cursor
  cases kind with
  | word name keyword =>
    cases keyword with
    | none => rfl
    | some keyword => cases keyword <;> first | rfl | simp [binaryOpOf, h]
  | _ => rfl

/-- An operator between blanks. -/
theorem Cursor.At.operator {op : BinaryOp}
    (h : cursor.At whole (' ' :: (op.text.toList ++ ' ' :: more))) :
    binaryOpOf cursor.widened.token.kind = some op ∧ cursor.widened.next.At whole (' ' :: more) ∧
      cursor.here = op.text.toList ++ ' ' :: more := by
  have hword (hname : isName op.text.toList = true) :
      cursor.widened.token.kind = .word op.text (Keyword.ofName? op.text.toList) ∧
        cursor.widened.next.At whole (' ' :: more) ∧
        cursor.here = op.text.toList ++ ' ' :: more := by
    obtain ⟨hkind, hnext, hhere⟩ := h.blank.word hname (endsName_cons (by decide) (by decide) more)
    rw [String.ofList_toList] at hkind
    rw [Cursor.widened_of_ne (by rw [hkind]; exact nofun)]
    exact ⟨hkind, hnext, hhere⟩
  -- Two operators are words, the others punctuators.
  by_cases hop : op = .isIn ∨ op = .instanceOf
  · rcases hop with rfl | rfl
    · obtain ⟨hkind, hnext⟩ := hword (by decide)
      exact ⟨by rw [hkind]; rfl, hnext⟩
    · obtain ⟨hkind, hnext⟩ := hword (by decide)
      exact ⟨by rw [hkind]; rfl, hnext⟩
  · have hpunct : ∃ p ∈ Punct.direct ++ Punct.greater,
        BinaryOp.ofPunct? p = some op ∧ p.text = op.text := by
      cases op <;> first | decide | exact absurd (by decide) hop
    obtain ⟨p, -, hp, htext⟩ := hpunct
    rw [← htext] at h ⊢
    obtain ⟨hkind, hnext⟩ := h.spaced
    exact ⟨by rw [hkind]; exact hp, hnext⟩

end

/-! ## How terms begin and end -/

/-- Whether a term begins with a token. -/
def startsTerm (kind : TokenKind) : Bool := kind.startsOperand || (UnaryOp.ofToken? kind).isSome

/-- Whether a token may be a parameter. -/
def isParam : TokenKind → Bool
  | .word _ none | .word _ (some .thisKw) => true
  | _ => false

/-- What stands at the cursor does not make a label or a parameter of what stands before it. -/
structure Cursor.GoesOn (cursor : Cursor) : Prop where
  colon : cursor.token.kind ≠ .punct .colon
  arrow : cursor.token.kind ≠ .punct .arrow
  question : cursor.token.kind = .punct .question → startsTerm cursor.next.token.kind = true

/-- A term stands at the cursor, before something else. -/
structure Begins (whole : List Char) (t : Term) (rest : List Char) (cursor : Cursor) : Prop where
  starts : startsTerm cursor.token.kind = true
  operand : t.isSpine = true → cursor.token.kind.startsOperand = true
  goesOn : isParam cursor.token.kind = true → cursor.next.GoesOn ∨ cursor.next.At whole rest
  inParens : cursor.token.kind = .punct .lparen → t.triesArrow true = true ∧
    startsTerm cursor.next.token.kind = true ∧
    (isParam cursor.next.token.kind = true → cursor.next.next.GoesOn)

/-- A text ends a term that stands before it. -/
def EndsTerm (t : Term) (rest : List Char) : Prop :=
  ∀ c ∈ rest.head?, c ∈ numberEnds ∧ (c = '.' → t.takesDot = false)

section

variable {whole rest : List Char} {cursor : Cursor} {t : Term} {kind : TokenKind}

/-- The end of a text ends a term. -/
theorem endsTerm_nil : EndsTerm t [] := by
  rintro c ⟨⟩

/-- Brackets, commas, blanks and question marks end a term. -/
theorem endsTerm_cons {c : Char} (hc : c ∈ ['[', ']', '(', ')', ',', ' ', '?']) :
    EndsTerm t (c :: rest) := by
  rintro d ⟨⟩
  refine ⟨List.mem_cons_of_mem _ hc, ?_⟩
  rintro rfl
  exact absurd hc (by decide)

/-- The dot of a member ends its object, if it is no decimal point. -/
theorem endsTerm_member {isOptional : Bool} (h : (isOptional || !t.takesDot) = true) :
    EndsTerm t ((if isOptional then ['?', '.'] else ['.']) ++ rest) := by
  cases isOptional with
  | true => exact endsTerm_cons (by decide)
  | false =>
    rintro c ⟨⟩
    exact ⟨by decide, fun _ => by simpa using h⟩

/-- What ends a term ends a name. -/
theorem EndsTerm.endsName (h : EndsTerm t rest) : EndsName rest := fun c hc =>
  ⟨isNamePart_of_mem_numberEnds (h c hc).1, ne_of_mem_numberEnds (h c hc).1 rfl⟩

/-- An operand that is one token stands at the cursor. -/
theorem Cursor.At.leaf {token : Leaf} (h : cursor.At whole (token.text ++ rest))
    (hends : EndsTerm (.leaf token) rest) :
    cursor.token.kind = token.kind ∧ cursor.next.At whole rest ∧
      cursor.here = token.text ++ rest ∧ slice? whole cursor.token.span = some token.text := by
  obtain ⟨c, more, htext, hsolid, -⟩ := exists_cons_of_isFront (isFront_of_leaf token)
  refine h.token ?_ (scanKind_leaf token hends.endsName hends)
  rw [htext]
  exact hsolid

/-- A sign is a token of its own before a character that it does not go on with. -/
theorem scanKind_sign {op : UnaryOp} {b : Char} (hop : op.isWord = false) (heq : b ≠ '=')
    (hminus : op = .minus → b ≠ '-') (hplus : op = .plus → b ≠ '+') (rest : List Char) :
    ∃ p, scanKind (op.text.toList ++ b :: rest) = (.punct p, op.text.toList.length) ∧
      UnaryOp.ofToken? (.punct p) = some op := by
  have hnames : isNameStart '-' = false ∧ isNameStart '+' = false ∧ isNameStart '!' = false := by
    decide
  cases op with
  | minus =>
    have hpunct : scanPunct? Punct.direct ('-' :: b :: rest) = some .minus := by
      simp [scanPunct?, Punct.direct, Punct.text, List.isPrefixOf, heq.symm, (hminus rfl).symm]
    refine ⟨.minus, ?_, rfl⟩
    simp [scanKind, UnaryOp.text, hpunct, hnames]
    rfl
  | plus =>
    have hpunct : scanPunct? Punct.direct ('+' :: b :: rest) = some .plus := by
      simp [scanPunct?, Punct.direct, Punct.text, List.isPrefixOf, heq.symm, (hplus rfl).symm]
    refine ⟨.plus, ?_, rfl⟩
    simp [scanKind, UnaryOp.text, hpunct, hnames]
    rfl
  | not =>
    have hpunct : scanPunct? Punct.direct ('!' :: b :: rest) = some .bang := by
      simp [scanPunct?, Punct.direct, Punct.text, List.isPrefixOf, heq.symm]
    refine ⟨.bang, ?_, rfl⟩
    simp [scanKind, UnaryOp.text, hpunct, hnames]
    rfl
  | complement => exact ⟨.tilde, rfl, rfl⟩
  | _ => cases hop

/-- An operator stands before its operand. -/
theorem Cursor.At.unary {op : UnaryOp} {operand : List Char}
    (h : cursor.At whole (op.text.toList ++ (op.gap operand ++ (operand ++ rest))))
    (hfront : operand.head?.any isFront = true) :
    UnaryOp.ofToken? cursor.token.kind = some op ∧ cursor.next.At whole (operand ++ rest) := by
  -- What stands behind the operator begins with its operand or a blank.
  obtain ⟨b, more, htext, hfirst, hback⟩ : ∃ b more,
      op.gap operand ++ (operand ++ rest) = b :: more ∧
      (b = ' ' ∨ op.gap operand = [] ∧ operand.head? = some b ∧ b ≠ '=') ∧
      (cursor.next.At whole (b :: more) → cursor.next.At whole (operand ++ rest)) := by
    obtain ⟨c, operand, rfl, -, hc, -⟩ := exists_cons_of_isFront hfront
    by_cases hgap : op.gap (c :: operand) = []
    · exact ⟨c, operand ++ rest, by rw [hgap]; rfl, .inr ⟨hgap, rfl, hc⟩, id⟩
    · have hblank : op.gap (c :: operand) = [' '] := by
        unfold UnaryOp.gap at hgap ⊢
        split at hgap
        · rename_i hif
          rw [if_pos hif]
        · exact absurd rfl hgap
      exact ⟨' ', c :: operand ++ rest, by rw [hblank]; rfl, .inl rfl, Cursor.At.blank⟩
  rw [htext] at h
  by_cases hword : op.isWord = true
  · have hgap : op.gap operand = [' '] := by
      unfold UnaryOp.gap
      rw [hword]
      rfl
    have hb : b = ' ' := by
      rcases hfirst with hb | ⟨hnone, -⟩
      · exact hb
      · rw [hgap] at hnone
        cases hnone
    have hname : isName op.text.toList = true := by
      cases op <;> first | decide | cases hword
    obtain ⟨hkind, hnext, -⟩ := h.word hname (hb ▸ endsName_cons (by decide) (by decide) more)
    refine ⟨?_, hback hnext⟩
    rw [hkind]
    cases op <;> first | rfl | cases hword
  · -- A sign does not run into its operand: a blank keeps two of a kind apart.
    have hne {c : Char} (hc : c ≠ ' ') (hgap : ∀ operand, operand.head? = some c →
        op.gap operand ≠ []) : b ≠ c := by
      rintro rfl
      rcases hfirst with hb | ⟨hnone, hhead, -⟩
      · exact hc hb
      · exact hgap operand hhead hnone
    have heq : b ≠ '=' := by
      rcases hfirst with rfl | ⟨-, -, hb⟩
      · decide
      · exact hb
    obtain ⟨p, hscan, hop⟩ := scanKind_sign (Bool.eq_false_iff.2 hword) heq
      (fun hop => hne (by decide) fun operand hhead => by
        subst hop
        simp [UnaryOp.gap, hhead])
      (fun hop => hne (by decide) fun operand hhead => by
        subst hop
        simp [UnaryOp.gap, hhead]) more
    have hsolid : op.text.toList.head?.any isSolid = true := by cases op <;> rfl
    obtain ⟨hkind, hnext, -⟩ := h.token hsolid hscan
    exact ⟨by rw [hkind]; exact hop, hback hnext⟩

/-- `?.` is one token unless a digit follows. -/
theorem Cursor.At.questionDot {c : Char} (h : cursor.At whole ('?' :: '.' :: c :: rest))
    (hc : c.isDigit = false) :
    cursor.token.kind = .punct .questionDot ∧ cursor.next.At whole (c :: rest) ∧
      cursor.here = '?' :: '.' :: c :: rest := by
  have hname : isNameStart '?' = false := by decide
  have hscan : scanKind (['?', '.'] ++ c :: rest) = (.punct .questionDot, ['?', '.'].length) := by
    simp [scanKind, hname, hc]
    rfl
  obtain ⟨hkind, hnext, hhere, -⟩ := Cursor.At.token h rfl hscan
  exact ⟨hkind, hnext, hhere⟩

/-- A member stands after its object. -/
theorem Cursor.At.member {name : PlainName} {isOptional : Bool}
    (h : cursor.At whole ((if isOptional then ['?', '.'] else ['.']) ++ (name.1.toList ++ rest)))
    (hrest : EndsName rest) :
    cursor.token.kind = .punct (if isOptional then .questionDot else .dot) ∧
      cursor.next.token.kind = .word name.1 (Keyword.ofName? name.1.toList) ∧
      cursor.next.next.At whole rest ∧ rest.length < cursor.here.length := by
  obtain ⟨name, hname⟩ := name
  dsimp only at h ⊢
  obtain ⟨c, more, htext, hc⟩ : ∃ c more, name.toList = c :: more ∧ isNameStart c = true := by
    cases htext : name.toList with
    | nil =>
      rw [htext] at hname
      cases hname
    | cons c more =>
      rw [htext] at hname
      exact ⟨c, more, rfl, (Bool.and_eq_true_iff.1 hname).1⟩
  -- A name begins with no digit, so `?.` is not the `?` of a conditional before a number.
  have hdigit : c.isDigit = false := by
    cases hc' : c.isDigit with
    | false => rfl
    | true =>
      rw [isNameStart_of_isDigit hc'] at hc
      cases hc
  obtain ⟨hkind, hnext, hhere⟩ :
      cursor.token.kind = .punct (if isOptional then .questionDot else .dot) ∧
      cursor.next.At whole (name.toList ++ rest) ∧ rest.length < cursor.here.length := by
    cases isOptional with
    | true =>
      rw [htext] at h ⊢
      obtain ⟨hkind, hnext, hhere⟩ := h.questionDot hdigit
      refine ⟨hkind, hnext, ?_⟩
      rw [hhere]
      simp
      omega
    | false =>
      rw [htext] at h ⊢
      obtain ⟨hkind, hnext, hhere⟩ := h.punct rfl (scanKind_dot hc _)
      refine ⟨hkind, hnext, ?_⟩
      rw [hhere]
      simp
      omega
  obtain ⟨hword, hafter, -⟩ := hnext.word hname hrest
  rw [String.ofList_toList] at hword
  exact ⟨hkind, hword, hafter, hhere⟩

/-- A bracket stands after the object or function that it belongs to. -/
theorem Cursor.At.opening {c : Char} {p : Punct} {isOptional : Bool}
    (h : cursor.At whole ((if isOptional then ['?', '.'] else []) ++ c :: rest))
    (hc : isSolid c = true ∧ c.isDigit = false) (hscan : scanKind (c :: rest) = (.punct p, 1)) :
    cursor.token.kind = .punct (if isOptional then .questionDot else p) ∧
      ∃ opening, opening = (if isOptional then cursor.next else cursor) ∧
        opening.token.kind = .punct p ∧ opening.next.At whole rest ∧
        cursor.SameNotes opening.next ∧ rest.length < cursor.here.length := by
  cases isOptional with
  | true =>
    obtain ⟨hkind, hnext, hhere⟩ := h.questionDot hc.2
    obtain ⟨hopening, hafter, -⟩ := hnext.punct hc.1 hscan
    refine ⟨hkind, _, rfl, hopening, hafter,
      cursor.sameNotes_next.trans cursor.next.sameNotes_next, ?_⟩
    rw [hhere]
    simp
    omega
  | false =>
    obtain ⟨hkind, hafter, hhere⟩ := h.punct hc.1 hscan
    refine ⟨hkind, _, rfl, hkind, hafter, cursor.sameNotes_next, ?_⟩
    rw [hhere]
    simp

/-! ## What a term begins with -/

/-- Most tokens make nothing of what stands before them. -/
theorem Cursor.GoesOn.of_kind (h : cursor.token.kind = kind)
    (hne : ∀ p ∈ [Punct.colon, .arrow, .question], kind ≠ .punct p) : cursor.GoesOn := by
  subst h
  exact ⟨hne _ (by decide), hne _ (by decide), fun hkind => absurd hkind (hne _ (by decide))⟩

/-- After an operator a term goes on. -/
theorem Cursor.At.goesOn_operator {op : BinaryOp}
    (h : cursor.At whole (' ' :: (op.text.toList ++ ' ' :: rest))) : cursor.GoesOn := by
  have hop := h.operator.1
  have hnone : ∀ p ∈ [Punct.colon, .arrow, .question], p ≠ .gt ∧ BinaryOp.ofPunct? p = none := by
    decide
  refine .of_kind rfl fun p hp hkind => ?_
  rw [Cursor.widened_of_ne (by simp [hkind, (hnone p hp).1]), hkind, binaryOpOf,
    (hnone p hp).2] at hop
  cases hop

/-- An operator before an operand is no parameter and no parenthesis. -/
theorem ne_of_unaryOp {op : UnaryOp} (h : UnaryOp.ofToken? kind = some op) :
    isParam kind = false ∧ kind ≠ .punct .lparen := by
  cases kind with
  | word name keyword =>
    cases keyword with
    | none => cases h
    | some keyword => cases keyword <;> cases h <;> exact ⟨rfl, nofun⟩
  | punct p => cases p <;> cases h <;> exact ⟨rfl, nofun⟩
  | _ => cases h

/-- A term whose first token is no parenthesis and no parameter. -/
theorem Begins.of_kind (h : cursor.token.kind = kind) (hstarts : startsTerm kind = true)
    (hoperand : t.isSpine = true → kind.startsOperand = true) (hparam : isParam kind = false)
    (hparen : kind ≠ .punct .lparen) : Begins whole t rest cursor := by
  subst h
  exact ⟨hstarts, hoperand, fun h => absurd h (by rw [hparam]; decide), fun h => absurd h hparen⟩

/-- A term that begins with another. -/
theorem Begins.of_left {left : Term} {more : List Char} (h : Begins whole left more cursor)
    (hspine : t.isSpine = true → left.isSpine = true)
    (htries : left.triesArrow true = true → t.triesArrow true = true)
    (hmore : ∀ cursor : Cursor, cursor.At whole more → cursor.GoesOn) :
    Begins whole t rest cursor :=
  ⟨h.starts, fun ht => h.operand (hspine ht),
    fun hparam => .inl ((h.goesOn hparam).elim id (hmore _)),
    fun hparen => (h.inParens hparen).imp_left htries⟩

/-- The first token of a term begins no parameters of a function, and is no label. -/
theorem begins {types : Bool} : ∀ t : Term, t.isSound types = true →
    ∀ {rest cursor}, cursor.At whole (t.text ++ rest) → EndsTerm t rest → Begins whole t rest cursor
  | .leaf token, _, rest, cursor, h, hends => by
    obtain ⟨hkind, hnext, -, -⟩ := h.leaf hends
    obtain ⟨-, hoperand, hcases⟩ := token.kind_cases
    rw [← hkind] at hoperand hcases
    refine ⟨by rw [startsTerm, hoperand]; rfl, fun _ => hoperand, fun _ => .inr hnext, ?_⟩
    intro hparen
    rw [hparen] at hcases
    rcases hcases with hcase | ⟨-, hcase⟩ | ⟨-, hcase⟩ <;> cases hcase
  | .array items, _, rest, cursor, h, _ =>
    .of_kind (h.punct (c := '[') rfl rfl).1 rfl (fun _ => rfl) rfl (by decide)
  | .paren inner, hsound, rest, cursor, h, _ => by
    simp only [Term.isSound, Bool.and_eq_true] at hsound
    simp only [Term.text, List.cons_append, List.append_assoc, List.nil_append] at h
    obtain ⟨hkind, hnext, -⟩ := h.punct rfl rfl
    -- In parentheses it counts as well what comes behind a first name.
    have hinner := begins inner hsound.2 hnext (endsTerm_cons (by decide))
    refine ⟨by rw [hkind]; rfl, fun _ => by rw [hkind]; rfl, fun hparam => ?_,
      fun _ => ⟨rfl, hinner.starts, fun hparam => ?_⟩⟩
    · rw [hkind] at hparam
      cases hparam
    · rcases hinner.goesOn hparam with hgoesOn | hclosing
      · exact hgoesOn
      · exact .of_kind (hclosing.punct rfl rfl).1 (by decide)
  | .member object name isOptional, hsound, rest, cursor, h, hends => by
    -- The front of a link is that of what it is put to.
    simp only [Term.isSound, Bool.and_eq_true, and_assoc] at hsound
    simp only [Term.text, List.append_assoc] at h
    refine (begins object hsound.2.1 h ?_).of_left (fun _ => hsound.1) id fun cursor hmember => ?_
    · exact endsTerm_member hsound.2.2
    · exact .of_kind (hmember.member hends.endsName).1 (by cases isOptional <;> decide)
  | .index object inner isOptional, hsound, rest, cursor, h, hends
  | .call object inner isOptional, hsound, rest, cursor, h, hends => by
    simp only [Term.isSound, Bool.and_eq_true, and_assoc] at hsound
    simp only [Term.text, List.append_assoc, List.cons_append] at h
    refine (begins object hsound.2.1 h ?_).of_left (fun _ => hsound.1)
      (fun htries => by simp [Term.triesArrow, htries]) fun cursor hopening => ?_
    · cases isOptional <;> exact endsTerm_cons (by decide)
    · exact .of_kind (hopening.opening ⟨rfl, rfl⟩ rfl).1 (by cases isOptional <;> decide)
  | .chain inner, hsound, rest, cursor, h, hends => by
    simp only [Term.isSound, Bool.and_eq_true] at hsound
    obtain ⟨hopen, hinner⟩ := hsound
    have hleft := begins inner hinner h fun c hc =>
      ⟨(hends c hc).1, fun _ => by cases inner <;> first | rfl | cases hopen⟩
    exact ⟨hleft.starts, (by cases ·), hleft.goesOn, hleft.inParens⟩
  | .unary op operand, _, rest, cursor, h, _ => by
    simp only [Term.text, List.append_assoc] at h
    obtain ⟨hop, -⟩ := h.unary (isFront_text operand)
    obtain ⟨hparam, hparen⟩ := ne_of_unaryOp hop
    exact .of_kind rfl (by rw [startsTerm, hop]; exact Bool.or_true _) (by cases ·) hparam hparen
  | .binary op left right, hsound, rest, cursor, h, hends => by
    simp only [Term.isSound, Bool.and_eq_true, and_assoc] at hsound
    simp only [Term.text, List.append_assoc, List.cons_append] at h
    exact (begins left hsound.2.1 h (endsTerm_cons (by decide))).of_left (by cases ·)
      (fun htries => by simp [Term.triesArrow, htries]) fun cursor hmore => hmore.goesOn_operator
  | .conditional test consequent alternate, hsound, rest, cursor, h, hends => by
    simp only [Term.isSound, Bool.and_eq_true, and_assoc] at hsound
    simp only [Term.text, List.append_assoc, List.cons_append, List.nil_append] at h
    refine (begins test hsound.2.1 h (endsTerm_cons (by decide))).of_left (by cases ·)
      (fun htries => by simp [Term.triesArrow, htries]) fun cursor hmore => ?_
    obtain ⟨hkind, hnext, -⟩ := hmore.blank.punct rfl rfl
    refine ⟨by simp [hkind], by simp [hkind], fun _ => ?_⟩
    exact (begins consequent hsound.2.2.2.1 hnext.blank (endsTerm_cons (by decide))).starts

end

end MarkupCompiler.Grammar
