import MarkupCompiler.Proofs.TermLevels

/-!
# Operands read from their text

An operand is one token, a term in parentheses or an array, perhaps with members and calls after it.
For each there is one lemma that reads it from its text. The lists in brackets are read item by item
(`ReadsList`).
-/

namespace MarkupCompiler.Grammar

open Syntax Text

section

variable {scope : Scope} {cursor : Cursor} {depth : Nat} {whole rest : List Char} {types : Bool}
  {t : Term}

/-! ## Operands by themselves -/

/-- In brackets the operators of terms are operators too. -/
theorem Scope.Plain.inBrackets (h : scope.Plain whole types) : scope.inBrackets.Plain whole types :=
  ⟨h.types, rfl, rfl⟩

/-- An operand is read before its members and calls are. -/
theorem ReadsSpine.of_primary (hopen : t.isOpen = false)
    (h : ∀ depth ⦃scope rest cursor⦄, scope.Plain whole types → EndsTerm t rest →
      4 * t.text.length ≤ depth → cursor.At whole (t.text ++ rest) →
      ∃ e next, Passes whole t rest cursor e next ∧
        (Rules.bounded depth).primary scope cursor = .ok (e, next)) :
    ReadsSpine whole types t := by
  intro depth scope rest cursor step hscope hends hdepth hat hstep
  obtain ⟨e, next, hpasses, hread⟩ := h depth hscope hends hdepth hat
  refine ⟨e, next, hpasses, fun result hresult => ?_⟩
  rw [Rules.memberOrCall, Parser.bind_apply, startOffset_apply, ok_bind, Parser.bind_apply, hread,
    ok_bind, hstep.links]
  rw [hopen] at hresult
  exact hresult

/-- An operand that is one token. -/
theorem readsSpine_leaf (token : Leaf) : ReadsSpine whole types (.leaf token) := by
  refine .of_primary rfl fun depth scope rest cursor hscope hends hdepth hat => ?_
  obtain ⟨hkind, hnext, -, hslice⟩ := hat.leaf hends
  have hpasses {e : Expr} (he : e.term? whole = some (.leaf token)) :
      Passes whole (.leaf token) rest cursor e cursor.next := ⟨he, hnext, cursor.sameNotes_next⟩
  obtain ⟨-, hoperand, hcases⟩ := token.kind_cases
  rw [Rules.primary, Parser.bind_apply, token_apply, ok_bind]
  dsimp only
  rw [hkind]
  cases hk : token.kind with
  | number value | bigint | string value =>
    refine ⟨_, _, hpasses ?_, rfl⟩
    simp [Expr.term?, Literal.leaf?, hslice, ← hk, token.of?_eq]
  | word name keyword =>
    obtain ⟨htext, hkeyword⟩ := Leaf.eq_of_word hk
    have hleaf : Leaf.of? name.toList (.word name keyword) = some token := by
      rw [← htext, ← hk]
      exact token.of?_eq
    cases keyword with
    | none =>
      refine ⟨.ident cursor.token.span name, _, hpasses ?_, ?_⟩
      · simp [Expr.term?, hleaf]
      · rw [hk] at hkind
        simp [identifier, hkind, Scope.allowsName]
    | some keyword =>
      obtain ⟨entry, hentry, hname, rfl⟩ := Keyword.exists_of_ofName? hkeyword.symm
      obtain rfl := String.toList_inj.1 hname
      rw [hk] at hoperand
      -- Four keywords are operands, each an expression of its own.
      have hwords : ∀ entry ∈ Keyword.reserved ++ Keyword.contextual,
          TokenKind.startsOperand (.word "" (some entry.2)) = true →
          entry = ("null", .nullKw) ∨ entry = ("true", .trueKw) ∨ entry = ("false", .falseKw) ∨
            entry = ("this", .thisKw) := by
        decide +kernel
      rcases hwords entry hentry hoperand with rfl | rfl | rfl | rfl <;>
        exact ⟨_, _, hpasses (by simp only [Expr.term?, Literal.leaf?, hleaf]; rfl), rfl⟩
  | _ =>
    rw [hk] at hcases
    rcases hcases with hcase | ⟨-, hcase⟩ | ⟨-, hcase⟩ <;> cases hcase

/-- A term in brackets. -/
theorem ReadsItem.inner (h : ReadsItem whole types t) (depth : Nat)
    (hscope : scope.Plain whole types) {c : Char} {p : Punct} (hc : c ∈ [')', ']', ','])
    (hpunct : scanKind (c :: rest) = (.punct p, 1)) (hp : p ≠ .comma)
    (hdepth : 4 * t.text.length + 4 ≤ depth)
    (hat : cursor.At whole (t.text ++ c :: rest)) :
    ∃ e next, Passes whole t (c :: rest) cursor e next ∧ next.token.kind = .punct p ∧
      next.next.At whole rest ∧ (Rules.bounded depth).inner scope cursor = .ok (e, next) := by
  obtain ⟨depth, rfl⟩ := exists_eq_succ hdepth
  obtain ⟨e, next, hpasses, hread⟩ := h depth hscope.inBrackets (.closing hc rest) (by omega) hat
  have hsolid : isSolid c = true := by
    simp only [List.mem_cons, List.not_mem_nil, or_false] at hc
    rcases hc with rfl | rfl | rfl <;> rfl
  obtain ⟨hkind, hafter, -⟩ := hpasses.stands.punct hsolid hpunct
  refine ⟨e, next, hpasses, hkind, hafter, ?_⟩
  have hassignment : (Rules.bounded (depth + 1)).assignment scope.inBrackets cursor =
      .ok (e, next) := hread
  simp [Rules.inner, Rules.expression, hassignment, hkind, hp]

/-- A term is an item of a list, perhaps spread. -/
theorem ReadsItem.item (h : ReadsItem whole types t) (depth : Nat)
    (hscope : scope.Plain whole types) (hsound : t.isSound types = true) (hcloses : Closes rest)
    (hdepth : 4 * t.text.length + 4 ≤ depth) (hat : cursor.At whole (t.text ++ rest)) :
    ∃ e next, Passes whole t rest cursor e next ∧ startsTerm cursor.token.kind = true ∧
      (Rules.bounded depth).innerItem scope cursor = .ok (e, next) ∧
      (Rules.bounded depth).item scope cursor = .ok (.value e, next) := by
  obtain ⟨depth, rfl⟩ := exists_eq_succ hdepth
  obtain ⟨e, next, hpasses, hread⟩ := h depth hscope.inBrackets hcloses (by omega) hat
  have hfollows : Follows types 0 rest := .closes hcloses
  have hstarts := (begins t hsound hat hfollows.endsTerm).starts
  have hinner : (Rules.bounded (depth + 1)).innerItem scope cursor = .ok (e, next) := hread
  refine ⟨e, next, hpasses, hstarts, hinner, ?_⟩
  simp [Rules.item, eat?, ne_punct_of_startsTerm hstarts (p := .ellipsis) rfl, hinner]

/-- A parenthesis is an operand. -/
theorem readsSpine_paren (h : ReadsItem whole types t) : ReadsSpine whole types (.paren t) := by
  refine .of_primary rfl fun depth scope rest cursor hscope hends hdepth hat => ?_
  simp only [Term.text, List.cons_append, List.append_assoc, List.nil_append, List.length_cons,
    List.length_append] at hat hdepth
  obtain ⟨hopening, hnext, -⟩ := hat.punct rfl rfl
  obtain ⟨e, closing, hpasses, hclosing, hafter, hread⟩ := h.inner depth (p := .rparen) hscope
    (by decide) rfl nofun (by omega) hnext
  refine ⟨.paren ⟨cursor.token.span.start, closing.next.lastStop⟩ e, closing.next,
    ⟨by simp [Expr.term?, hpasses.term], hafter,
      (cursor.sameNotes_next.trans hpasses.notes).trans closing.sameNotes_next⟩, ?_⟩
  rw [Rules.primary, Parser.bind_apply, token_apply, ok_bind]
  dsimp only
  rw [hopening]
  simp [Rules.parenthesized, expect, hopening, hread, hclosing]

/-! ## Members and calls -/

/-- A member at the cursor is read. -/
theorem memberAfterDot_of_word {start : Nat} {e : Expr} {isOptional : Bool} {name : String}
    {keyword : Option Keyword} (h : cursor.token.kind = .word name keyword) :
    Rules.memberAfterDot start e isOptional scope cursor =
      .ok (.member ⟨start, cursor.next.lastStop⟩ e (.plain name) isOptional, cursor.next) := by
  rw [Rules.memberAfterDot, Parser.bind_apply, token_apply, ok_bind]
  dsimp only
  rw [h]
  rfl

/-- A member of an operand. -/
theorem ReadsSpine.member (h : ReadsSpine whole types t) {name : PlainName} {isOptional : Bool}
    (hdot : (isOptional || !t.takesDot) = true) :
    ReadsSpine whole types (.member t name isOptional) := by
  intro depth scope rest cursor step hscope hends hdepth hat hstep
  simp only [Term.text, List.append_assoc, List.length_append] at hat hdepth
  obtain ⟨e, dot, hpasses, hcontinue⟩ := h depth hscope (endsTerm_member hdot) (by omega) hat hstep
  obtain ⟨hdot, hname, hafter, hlength⟩ := hpasses.stands.member hends.endsName
  refine ⟨.member ⟨cursor.token.span.start, dot.next.next.lastStop⟩ e (.plain name.1) isOptional,
    dot.next.next, ⟨?_, hafter, ?_⟩, fun result hresult => hcontinue result ?_⟩
  · simp [Expr.term?, hpasses.term, MemberName.plain?, name.2]
  · exact (hpasses.notes.trans dot.sameNotes_next).trans dot.next.sameNotes_next
  · refine loop_of_step ?_ (Nat.lt_of_le_of_lt hafter.reads.length_le hlength) hresult
    cases isOptional with
    | true =>
      rw [hstep.optional hdot, Rules.optionalLink, Parser.bind_apply, token_apply, ok_bind]
      dsimp only
      rw [hname]
      dsimp only
      rw [memberAfterDot_of_word hname]
      rfl
    | false =>
      rw [hstep.member hdot, memberAfterDot_of_word hname]
      rfl

/-- A bracket, with `?.` before it or not, ends the operand before it. -/
theorem endsTerm_opening {c : Char} {isOptional : Bool} (hc : c ∈ ['(', '[']) :
    EndsTerm t ((if isOptional then ['?', '.'] else []) ++ c :: rest) := by
  cases isOptional with
  | true => exact endsTerm_cons (by decide)
  | false =>
    refine endsTerm_cons ?_
    simp only [List.mem_cons, List.not_mem_nil, or_false] at hc
    rcases hc with rfl | rfl <;> decide

/-- A member of an operand that an expression in brackets names. -/
theorem ReadsSpine.index (h : ReadsSpine whole types t) {key : Term} {isOptional : Bool}
    (hkey : ReadsItem whole types key) : ReadsSpine whole types (.index t key isOptional) := by
  intro depth scope rest cursor step hscope hends hdepth hat hstep
  simp only [Term.text, List.append_assoc, List.cons_append, List.nil_append, List.length_append,
    List.length_cons] at hat hdepth
  obtain ⟨e, link, hpasses, hcontinue⟩ := h depth hscope (endsTerm_opening (by decide)) (by omega)
    hat hstep
  obtain ⟨hlink, opening, hopening, hbracket, hinner, hnotes, hlength⟩ :=
    hpasses.stands.opening ⟨rfl, rfl⟩ rfl
  obtain ⟨k, closing, hk, hclosing, hafter, hread⟩ := hkey.inner depth (p := .rbracket) hscope
    (by decide) rfl nofun (by omega) hinner
  have hindexed : (Rules.bounded depth).indexed cursor.token.span.start e isOptional scope opening =
      .ok (.index ⟨cursor.token.span.start, closing.next.lastStop⟩ e k isOptional,
        closing.next) := by
    simp [Rules.indexed, expect, hbracket, hread, hclosing]
  -- The loop of the object takes the key and goes on from the bracket.
  refine ⟨.index ⟨cursor.token.span.start, closing.next.lastStop⟩ e k isOptional, closing.next,
    ⟨?_, hafter, ?_⟩, fun result hresult => hcontinue result ?_⟩
  · simp [Expr.term?, hpasses.term, hk.term]
  · exact ((hpasses.notes.trans hnotes).trans hk.notes).trans closing.sameNotes_next
  · refine loop_of_step ?_ (Nat.lt_of_le_of_lt hafter.reads.length_le ?_) hresult
    · cases isOptional with
      | true =>
        rw [if_pos rfl] at hopening
        subst hopening
        rw [hstep.optional hlink, Rules.optionalLink, Parser.bind_apply, token_apply, ok_bind]
        dsimp only
        rw [hbracket]
        dsimp only
        rw [hindexed]
        rfl
      | false =>
        rw [if_neg Bool.false_ne_true] at hopening
        subst hopening
        rw [hstep.index hlink, hindexed]
        rfl
    · simp only [List.length_append, List.length_cons] at hlength
      omega

/-! ## Lists -/

/-- The brackets that close a list. -/
inductive ClosesList : Char → Punct → Prop
  | paren : ClosesList ')' .rparen
  | bracket : ClosesList ']' .rbracket

/-- How the items of a list are read, up to the bracket that closes it. -/
structure ListRule (whole : List Char) (types holes : Bool) (depth : Nat) (scope : Scope)
    (c : Char) (closing : Punct) (item : Parser Item)
    (step : List Item → Parser (List Item ⊕ List Item)) : Prop
    extends ListStep closing item scope step where
  plain : scope.Plain whole types
  closes : ClosesList c closing
  value {cursor : Cursor} (h : cursor.token.kind ≠ .punct .comma) :
    item scope cursor = (Rules.bounded depth).item scope cursor
  hole {cursor : Cursor} (hholes : holes = true) (h : cursor.token.kind = .punct .comma) :
    item scope cursor = .ok (.hole, cursor)

/-- Items were read as the elements of a list, and the cursor stands on the bracket after them. -/
structure PassesItems (whole : List Char) (ts : Terms) (closing : Punct) (rest : List Char)
    (cursor : Cursor) (items : List Item) (next : Cursor) : Prop where
  terms : itemsTerms? whole items = some ts
  kind : next.token.kind = .punct closing
  stands : next.next.At whole rest
  notes : cursor.SameNotes next

/-- The items of a list are read up to the bracket that closes it. -/
def ReadsList (whole : List Char) (types holes : Bool) (ts : Terms) : Prop :=
  ∀ depth ⦃scope c closing item step rest cursor⦄ items,
  ListRule whole types holes depth scope c closing item step → 4 * ts.text.length + 4 ≤ depth →
  cursor.At whole (ts.text ++ (ts.lastComma ++ c :: rest)) →
  ∃ more next, PassesItems whole ts closing rest cursor more next ∧
    loop items step scope cursor = .ok (items.reverse ++ more, next)

section

variable {holes : Bool} {ts : Terms} {c : Char} {closing : Punct} {item : Parser Item}
  {step : List Item → Parser (List Item ⊕ List Item)} {x : Item} {next : Cursor}

/-- The bracket that closes a list is a token of its own. -/
theorem ClosesList.kind (h : ClosesList c closing) (hat : cursor.At whole (c :: rest)) :
    cursor.token.kind = .punct closing ∧ cursor.next.At whole rest := by
  cases h with
  | paren | bracket =>
    obtain ⟨hkind, hnext, -⟩ := hat.punct rfl rfl
    exact ⟨hkind, hnext⟩

/-- A list without items ends at once. -/
theorem readsList_nil : ReadsList whole types holes .nil := by
  intro depth scope c closing item step rest cursor items hrule hdepth hat
  obtain ⟨hkind, hnext⟩ := hrule.closes.kind hat
  refine ⟨[], cursor, ⟨rfl, hkind, hnext, rfl, rfl, rfl⟩, ?_⟩
  rw [List.append_nil]
  exact loop_of_done (hrule.closed hkind)

/-- After an item and a comma the other items are read. -/
theorem ReadsList.more (h : ReadsList whole types holes ts)
    (hrule : ListRule whole types holes depth scope c closing item step)
    (hdepth : 4 * ts.text.length + 4 ≤ depth)
    (hkind : cursor.token.kind ≠ .punct closing ∧ cursor.token.kind ≠ .finish)
    (hread : item scope cursor = .ok (x, next)) (hcomma : next.token.kind = .punct .comma)
    (hafter : next.next.At whole (ts.text ++ (ts.lastComma ++ c :: rest)))
    (hless : next.next.here.length < cursor.here.length) (items : List Item) :
    ∃ more last, PassesItems whole ts closing rest next more last ∧
      loop items step scope cursor = .ok (items.reverse ++ x :: more, last) := by
  obtain ⟨more, last, hmore, hloop⟩ := h depth (x :: items) hrule hdepth hafter
  refine ⟨more, last, { hmore with notes := next.sameNotes_next.trans hmore.notes }, ?_⟩
  rw [List.reverse_cons, List.append_assoc] at hloop
  exact loop_of_step (hrule.more hkind hread hcomma) hless hloop

/-- After an item the list ends, or goes on with a comma. -/
theorem ReadsList.after (h : ReadsList whole types holes ts)
    (hrule : ListRule whole types holes depth scope c closing item step)
    (hdepth : 4 * ts.text.length + 4 ≤ depth)
    (hkind : cursor.token.kind ≠ .punct closing ∧ cursor.token.kind ≠ .finish)
    (hread : item scope cursor = .ok (x, next))
    (hnext : next.At whole (ts.comma ++ (ts.text ++ (ts.lastComma ++ c :: rest))))
    (hless : next.here.length < cursor.here.length) (items : List Item) :
    ∃ more last, PassesItems whole ts closing rest next more last ∧
      loop items step scope cursor = .ok (items.reverse ++ x :: more, last) := by
  rcases ts.comma_eq with rfl | hcomma
  · obtain ⟨hclosing, hrest⟩ := hrule.closes.kind hnext
    refine ⟨[], next, ⟨rfl, hclosing, hrest, rfl, rfl, rfl⟩, ?_⟩
    rw [← List.reverse_cons]
    exact loop_of_done (hrule.last hkind hread hclosing)
  · rw [hcomma] at hnext
    obtain ⟨hkindComma, hafter, -⟩ := hnext.punct rfl rfl
    exact h.more hrule hdepth hkind hread hkindComma hafter.blank
      (Nat.lt_of_le_of_lt hnext.reads.length_next_le hless) items

/-- What stands after an item ends it. -/
theorem ClosesList.closes (h : ClosesList c closing) (more : List Char) :
    Closes (ts.comma ++ (ts.text ++ (ts.lastComma ++ c :: more))) := by
  rcases ts.comma_eq with rfl | hcomma
  · cases h with
    | paren | bracket => exact .closing (by decide) _
  · rw [hcomma]
    exact .closing (by decide) _

/-- A hole before the other items is read as one. -/
theorem ReadsList.hole (h : ReadsList whole types true ts) :
    ReadsList whole types true (.hole ts) := by
  intro depth scope c closing item step rest cursor items hrule hdepth hat
  obtain ⟨hcomma, hnext, hless⟩ : cursor.token.kind = .punct .comma ∧
      cursor.next.At whole (ts.text ++ (ts.lastComma ++ c :: rest)) ∧
      cursor.next.here.length < cursor.here.length := by
    -- The comma of a last hole is the one that keeps it, any other one stands between two items.
    rcases ts.comma_eq with rfl | hcomma
    · obtain ⟨hkind, hnext, hhere⟩ := hat.punct (c := ',') rfl rfl
      exact ⟨hkind, hnext, by rw [hhere]; exact Nat.lt_succ_of_le hnext.reads.length_le⟩
    · have hlast : (Terms.hole ts).lastComma = ts.lastComma := by
        cases ts <;> first | rfl | cases hcomma
      simp only [Terms.text, hcomma, hlast, List.cons_append, List.nil_append] at hat
      obtain ⟨hkind, hnext, hhere⟩ := hat.punct rfl rfl
      exact ⟨hkind, hnext.blank, by rw [hhere]; exact Nat.lt_succ_of_le hnext.reads.length_le⟩
  simp only [Terms.text, List.length_append] at hdepth
  have hkind : cursor.token.kind ≠ .punct closing ∧ cursor.token.kind ≠ .finish := by
    rw [hcomma]
    cases hrule.closes <;> simp
  obtain ⟨more, last, hmore, hloop⟩ := h.more hrule (by omega) hkind (hrule.hole rfl hcomma) hcomma
    hnext hless items
  exact ⟨.hole :: more, last, { hmore with terms := by simp [itemsTerms?, hmore.terms] }, hloop⟩

/-- A term before the other items is read as an item. -/
theorem ReadsList.value (h : ReadsList whole types holes ts) (ht : ReadsItem whole types t)
    (hsound : t.isSound types = true) : ReadsList whole types holes (.value t ts) := by
  intro depth scope c closing item step rest cursor items hrule hdepth hat
  simp only [Terms.text, Terms.lastComma, List.length_append, List.append_assoc] at hdepth hat
  obtain ⟨e, next, hpasses, hstarts, -, hread⟩ := ht.item depth hrule.plain hsound
    (hrule.closes.closes rest) (by omega) hat
  have hkind : cursor.token.kind ≠ .punct closing ∧ cursor.token.kind ≠ .finish := by
    refine ⟨ne_punct_of_startsTerm hstarts (by cases hrule.closes <;> rfl), ?_⟩
    intro hfinish
    rw [hfinish] at hstarts
    cases hstarts
  rw [← hrule.value (ne_punct_of_startsTerm hstarts rfl)] at hread
  obtain ⟨more, last, hmore, hloop⟩ := h.after hrule (by omega) hkind hread hpasses.stands
    (hat.length_lt hpasses.stands) items
  exact ⟨.value e :: more, last, ⟨by simp [itemsTerms?, hpasses.term, hmore.terms], hmore.kind,
    hmore.stands, hpasses.notes.trans hmore.notes⟩, hloop⟩

/-- A term that is spread before the other items is read as an item. -/
theorem ReadsList.spread (h : ReadsList whole types holes ts) (ht : ReadsItem whole types t)
    (hsound : t.isSound types = true) : ReadsList whole types holes (.spread t ts) := by
  intro depth scope c closing item step rest cursor items hrule hdepth hat
  simp only [Terms.text, Terms.lastComma, List.length_append, List.append_assoc] at hdepth hat
  obtain ⟨hdots, hafter, -⟩ := Cursor.At.token hat rfl rfl
  obtain ⟨e, next, hpasses, -, hread, -⟩ := ht.item depth hrule.plain hsound
    (hrule.closes.closes rest) (by omega) hafter
  have hitem : item scope cursor = .ok (.spread e, next) := by
    rw [hrule.value (by simp [hdots])]
    simp [Rules.item, eat?, hdots, hread]
  have hkind : cursor.token.kind ≠ .punct closing ∧ cursor.token.kind ≠ .finish := by
    rw [hdots]
    cases hrule.closes <;> simp
  obtain ⟨more, last, hmore, hloop⟩ := h.after hrule (by omega) hkind hitem hpasses.stands
    (Nat.lt_of_lt_of_le (hafter.length_lt hpasses.stands) hat.reads.length_next_le) items
  exact ⟨.spread e :: more, last, ⟨by simp [itemsTerms?, hpasses.term, hmore.terms], hmore.kind,
    hmore.stands, (cursor.sameNotes_next.trans hpasses.notes).trans hmore.notes⟩, hloop⟩

end

/-- An array is an operand. -/
theorem readsSpine_array {ts : Terms} (h : ReadsList whole types true ts) :
    ReadsSpine whole types (.array ts) := by
  refine .of_primary rfl fun depth scope rest cursor hscope hends hdepth hat => ?_
  simp only [Term.text, List.cons_append, List.append_assoc, List.nil_append, List.length_cons,
    List.length_append] at hat hdepth
  obtain ⟨hopening, hnext, -⟩ := hat.punct rfl rfl
  obtain ⟨step, hstep⟩ := exists_listStep (p := .rbracket) nofun
    (do if ← at? .comma then return .hole else (Rules.bounded depth).item) scope
  obtain ⟨items, closing, hitems, hread⟩ := h depth [] ⟨hstep, hscope, .bracket,
    fun hkind => by simp [hkind], fun _ hkind => by simp [hkind]⟩ (by omega) hnext
  rw [← hstep.list, List.reverse_nil, List.nil_append] at hread
  refine ⟨.array ⟨cursor.token.span.start, closing.next.lastStop⟩ items, closing.next,
    ⟨by simp [Expr.term?, hitems.terms], hitems.stands,
      (cursor.sameNotes_next.trans hitems.notes).trans closing.sameNotes_next⟩, ?_⟩
  rw [Rules.primary, Parser.bind_apply, token_apply, ok_bind]
  dsimp only
  rw [hopening]
  simp [Rules.arrayLiteral, expect, hopening, hread, hitems.kind]

/-- A call of an operand. -/
theorem ReadsSpine.call (h : ReadsSpine whole types t) {ts : Terms} {isOptional : Bool}
    (hlist : ReadsList whole types false ts) (hnone : ts.lastComma = []) :
    ReadsSpine whole types (.call t ts isOptional) := by
  intro depth scope rest cursor step hscope hends hdepth hat hstep
  simp only [Term.text, List.append_assoc, List.cons_append, List.nil_append, List.length_append,
    List.length_cons] at hat hdepth
  obtain ⟨e, link, hpasses, hcontinue⟩ := h depth hscope (endsTerm_opening (by decide)) (by omega)
    hat hstep
  obtain ⟨hlink, opening, hopening, hparen, hinner, hnotes, hlength⟩ :=
    hpasses.stands.opening ⟨rfl, rfl⟩ rfl
  obtain ⟨listStep, hlistStep⟩ := exists_listStep (p := .rparen) nofun (Rules.bounded depth).item
    scope
  obtain ⟨items, closing, hitems, hread⟩ := hlist depth [] ⟨hlistStep, hscope, .paren,
    fun _ => rfl, nofun⟩ (by omega) (by rw [hnone]; exact hinner)
  rw [← hlistStep.list, List.reverse_nil, List.nil_append] at hread
  have harguments : (Rules.bounded depth).arguments scope opening = .ok (items, closing.next) := by
    simp [Rules.arguments, expect, hparen, hread, hitems.kind]
  -- The loop of the callee takes the arguments and goes on with the call.
  refine ⟨.call ⟨cursor.token.span.start, closing.next.lastStop⟩ e none items isOptional,
    closing.next, ⟨?_, hitems.stands, ?_⟩, fun result hresult => hcontinue result ?_⟩
  · simp [Expr.term?, hpasses.term, hitems.terms]
  · exact ((hpasses.notes.trans hnotes).trans hitems.notes).trans closing.sameNotes_next
  · refine loop_of_step ?_ (Nat.lt_of_le_of_lt hitems.stands.reads.length_le ?_) hresult
    · cases isOptional with
      | true =>
        rw [if_pos rfl] at hopening
        subst hopening
        rw [hstep.optional hlink, Rules.optionalLink, Parser.bind_apply, token_apply, ok_bind]
        dsimp only
        rw [hparen]
        simp [harguments, Term.isOpen]
      | false =>
        rw [if_neg Bool.false_ne_true] at hopening
        subst hopening
        rw [hstep.call hlink, Rules.called]
        simp only [Parser.bind_apply, harguments, ok_bind, spanFrom_apply]
        cases e with
        | typed span mark inner => cases hpasses.term
        | _ => rfl
    · simp only [List.length_append, List.length_cons] at hlength
      omega

end

end MarkupCompiler.Grammar
