import MarkupCompiler.Proofs.Agreement
import MarkupCompiler.Proofs.Rewriting
import MarkupCompiler.Proofs.ServerChunks

/-!
# What is escaped on the server

On the server the children of an element are arguments of a call. Expressions and spreads among them
are escaped, and stand there for their value (`ServerItem`). Children of a fragment are not: a
fragment is the same array as on the client, in which an expression stands for its value as it
changes and is not escaped (`FragmentItem`). So it matters whether an expression is a child of an
element or of a fragment that is a child of the element.
-/

namespace MarkupCompiler

open Syntax Text

/-! ## Results -/

/-- A computation gives a result in an environment, from some table of templates on. -/
def Emit.Gives (env : Env) {α : Type} (p : Emit α) (a : α) : Prop :=
  ∃ table table', p.runFrom env table = (.ok a, table')

namespace Emit.Gives

variable {env : Env} {α β : Type}

/-- `pure` gives its value only. -/
theorem eq_of_pure {a b : α} (h : Gives env (pure a) b) : b = a := by
  obtain ⟨table, table', hrun⟩ := h
  cases hrun
  rfl

/-- A sequence gives a result if its parts do. -/
theorem of_bind {p : Emit α} {f : α → Emit β} {b : β} (h : Gives env (p >>= f) b) :
    ∃ a, Gives env p a ∧ Gives env (f a) b := by
  obtain ⟨table, table', hrun⟩ := h
  obtain ⟨a, table₁, hp, hf⟩ := runFrom_bind_eq_ok.1 hrun
  exact ⟨a, ⟨table, table₁, hp⟩, ⟨table₁, table', hf⟩⟩

/-- A computation with a function after it gives what the function makes of a result. -/
theorem of_map {p : Emit α} {f : α → β} {b : β} (h : Gives env (p >>= fun a => pure (f a)) b) :
    ∃ a, Gives env p a ∧ b = f a := by
  obtain ⟨a, ha, hb⟩ := h.of_bind
  exact ⟨a, ha, hb.eq_of_pure⟩

/-- A result with a function after it. -/
theorem map {p : Emit α} {a : α} (h : Gives env p a) (f : α → β) :
    Gives env (p >>= fun a => pure (f a)) (f a) := by
  obtain ⟨table, table', hrun⟩ := h
  exact ⟨table, table', runFrom_bind_eq_ok.2 ⟨a, table', hrun, rfl⟩⟩

/-- A run over a list gives a result for each member. -/
theorem of_mapM {f : α → Emit β} {xs : List α} {ys : List β} (h : Gives env (xs.mapM f) ys) :
    List.Forall₂ (fun x y => Gives env (f x) y) xs ys := by
  induction xs generalizing ys with
  | nil =>
    obtain rfl := h.eq_of_pure
    exact .nil
  | cons x xs ih =>
    rw [List.mapM_cons] at h
    obtain ⟨y, hy, hrest⟩ := h.of_bind
    obtain ⟨ys', hys, rfl⟩ := hrest.of_map
    exact .cons hy (ih hys)

end Emit.Gives

open Emit (Gives)

/-! ## Fragments -/

/-- What stands for a child in the array that a fragment is: an expression as the runtime watches
it, a spread with its dots, and other markup as its code. Nothing is escaped. -/
inductive FragmentItem (env : Env) : Child → List String → Prop where
  | text (raw : String) : FragmentItem env (.text raw) (Emitters.textValue? raw).toList
  | empty : FragmentItem env .empty []
  | expr {e : Expr} {t : String} : Gives env (emitExpr .reactive e) t →
    FragmentItem env (.expr e) [t]
  | spread {e : Expr} {t : String} : Gives env (emitExpr .plain e) t →
    FragmentItem env (.spread e) ["..." ++ t]
  | element {e : Element} {t : String} : Gives env (emitMarkup (.element e)) t →
    FragmentItem env (.markup (.element e)) [t]
  | fragment {span : Span} {children : List Child} {items : List (List String)} :
    List.Forall₂ (FragmentItem env) children items →
    FragmentItem env (.markup (.fragment span children))
      ["[" ++ joinWith ", " items.flatten ++ "]"]

variable {env : Env}

/-- What is left of values that may be missing. -/
theorem flatten_map_toList (values : List (Option String)) :
    (values.map Option.toList).flatten = values.filterMap id := by
  rw [← List.flatMap_def]
  exact (List.filterMap_eq_flatMap_toList id values).symm

mutual

/-- The value of a child is what stands for it in an array. -/
theorem FragmentItem.of_childValue? : ∀ (child : Child) (value : Option String),
    Gives env (emitters.childValue? child) value → FragmentItem env child value.toList
  | .text raw, value, h => by
    obtain rfl := h.eq_of_pure
    exact .text raw
  | .markup (.element e), value, h => by
    obtain ⟨t, ht, rfl⟩ := h.of_map
    exact .element ht
  | .markup (.fragment span children), value, h => by
    obtain ⟨t, ht, rfl⟩ := h.of_map
    have ht : Gives env (emitMarkup (.fragment span children)) t := ht
    rw [emitMarkup_eq] at ht
    obtain ⟨items, hitems, rfl⟩ := ht.of_map
    obtain ⟨values, hvalues, rfl⟩ := hitems.of_map
    rw [← flatten_map_toList]
    exact .fragment (FragmentItem.of_childValues children values hvalues.of_mapM)
  | .expr e, value, h => by
    obtain ⟨t, ht, rfl⟩ := h.of_map
    exact .expr ht
  | .empty, value, h => by
    obtain rfl := h.eq_of_pure
    exact .empty
  | .spread e, value, h => by
    obtain ⟨t, ht, rfl⟩ := h.of_map
    exact .spread ht

/-- The values of children are what stands for them in an array. -/
theorem FragmentItem.of_childValues : ∀ (children : List Child) (values : List (Option String)),
    List.Forall₂ (fun child value => Gives env (emitters.childValue? child) value) children values →
    List.Forall₂ (FragmentItem env) children (values.map Option.toList)
  | [], [], _ => .nil
  | child :: children, value :: values, .cons h hrest =>
    .cons (FragmentItem.of_childValue? child value h)
      (FragmentItem.of_childValues children values hrest)

end

/-! ## Elements -/

/-- Arguments for attributes. -/
def AttributeArguments (values : List String) : Prop :=
  ∀ value ∈ values, ∃ rest, value = "_$ssrAttr(" ++ rest ∨ value = "_$ssrSpread(" ++ rest

/-- The arguments that stand for a child in the call that an element is on the server. An expression
or spread is escaped and stands for its value now. A fragment is its array. The children of an
element that is no component are those of the same call, unless the element can have none. -/
inductive ServerItem (env : Env) : Child → List String → Prop where
  | text (raw : String) : ServerItem env (.text raw) []
  | empty : ServerItem env .empty []
  | expr {e : Expr} {t : String} : Gives env (emitExpr .plain e) t →
    ServerItem env (.expr e) ["_$escape(" ++ t ++ ")"]
  | spread {e : Expr} {t : String} : Gives env (emitExpr .plain e) t →
    ServerItem env (.spread e) ["_$escape(" ++ t ++ ")"]
  | fragment {span : Span} {children : List Child} {t : String} :
    FragmentItem env (.markup (.fragment span children)) [t] →
    ServerItem env (.markup (.fragment span children)) [t]
  | component {e : Element} {t : String} : e.isComponent = true →
    Gives env (emitMarkup (.element e)) t → ServerItem env (.markup (.element e)) [t]
  | void {e : Element} {attributes : List String} : e.isComponent = false →
    isVoidTag e.tag.text = true → AttributeArguments attributes →
    ServerItem env (.markup (.element e)) attributes
  | element {e : Element} {attributes : List String} {items : List (List String)} :
    e.isComponent = false → isVoidTag e.tag.text = false → AttributeArguments attributes →
    List.Forall₂ (ServerItem env) e.children items →
    ServerItem env (.markup (.element e)) (attributes ++ items.flatten)

/-- Values are given for the parts of pieces that the server shows, in order. -/
def ShownAs (env : Env) (pieces : List Piece) (values : List String) : Prop :=
  List.Forall₂ (fun part value => Gives env (emitters.serverValue? (.slot part)) (some value))
    ((partsOf pieces).filter (!·.isHandler)) values

namespace ShownAs

variable {values : List String}

/-- HTML takes no value. -/
theorem of_html {text : String} {pieces : List Piece}
    (h : ShownAs env (.html text :: pieces) values) : ShownAs env pieces values := h

/-- Values for pieces and pieces behind them. -/
theorem of_append {pieces pieces' : List Piece} (h : ShownAs env (pieces ++ pieces') values) :
    ∃ first rest, values = first ++ rest ∧ ShownAs env pieces first ∧ ShownAs env pieces' rest := by
  unfold ShownAs at h
  rw [partsOf_append, List.filter_append] at h
  have hfirst := (List.forall₂_take_append _ _ _ h.flip).flip
  have hrest := (List.forall₂_drop_append _ _ _ h.flip).flip
  exact ⟨_, _, (List.take_append_drop _ values).symm, hfirst, hrest⟩

/-- One value for one child. -/
theorem of_child {path : List Nat} {marker : Nat} {value : PartValue}
    (h : ShownAs env [.slot ⟨path, .inContent marker, value⟩] values) :
    ∃ t, values = [t] ∧ Gives env (emitters.serverChild value) t := by
  have hshown : Part.isHandler ⟨path, .inContent marker, value⟩ = false := by
    cases value <;> rfl
  unfold ShownAs at h
  rw [partsOf_slot, partsOf_nil, List.filter_cons_of_pos (by rw [hshown]; rfl),
    List.filter_nil] at h
  cases h with
  | cons hvalue hrest =>
    cases hrest
    obtain ⟨t, ht, heq⟩ := hvalue.of_map
    obtain rfl := Option.some.inj heq
    exact ⟨_, rfl, ht⟩

/-- The value for an attribute is an argument for it. -/
theorem of_attribute {path : List Nat} {name : Option String} {value : PartValue}
    (h : ShownAs env [.slot ⟨path, .inTag name, value⟩] values) : AttributeArguments values := by
  unfold ShownAs at h
  rw [partsOf_slot, partsOf_nil] at h
  intro argument hargument
  have hgives : Gives env (emitters.serverValue? (.slot ⟨path, .inTag name, value⟩))
      (some argument) := by
    rw [List.filter_cons, List.filter_nil] at h
    split at h
    · obtain ⟨first, rest, hfirst, hnone, rfl⟩ := List.forall₂_cons_left_iff.1 h
      cases hnone
      rw [List.mem_singleton.1 hargument]
      exact hfirst
    · cases h
      cases hargument
  cases value with
  | spread e =>
    obtain ⟨t, -, heq⟩ := hgives.of_map
    exact ⟨_, .inr (by rw [Option.some.inj heq, String.append_assoc])⟩
  | _ =>
    rw [Emitters.serverValue?, Emitters.serverAttribute?_of_not_spread _ _ (by simp)] at hgives
    split at hgives
    · cases hgives.eq_of_pure
    · obtain ⟨t, -, heq⟩ := hgives.of_map
      exact ⟨_, .inl (by rw [Option.some.inj heq, String.append_assoc, String.append_assoc,
        String.append_assoc])⟩

/-- The values for attributes are arguments for attributes. -/
theorem of_attributes {path : List Nat} {attributes : List Attribute}
    (h : ShownAs env (attributes.flatMap (Attribute.pieces path)) values) :
    AttributeArguments values := by
  induction attributes generalizing values with
  | nil =>
    cases h
    exact fun _ hvalue => nomatch hvalue
  | cons a attributes ih =>
    rw [List.flatMap_cons] at h
    obtain ⟨first, rest, rfl, hfirst, hrest⟩ := h.of_append
    refine List.forall_mem_append.2 ⟨?_, ih hrest⟩
    unfold ShownAs at hfirst
    rcases a.partsOf_pieces path with hnone | ⟨name, value, -, hone⟩
    · rw [hnone] at hfirst
      cases hfirst
      exact fun _ hvalue => nomatch hvalue
    · rw [hone] at hfirst
      exact of_attribute hfirst

end ShownAs

mutual

/-- The values for an element are those for its attributes and then those for its children. -/
theorem ServerItem.of_element : ∀ (e : Element) (path : List Nat) (next : Nat)
    (values : List String), e.isComponent = false → ShownAs env (e.pieces path next) values →
    ServerItem env (.markup (.element e)) values
  | .mk span tag attributes children, path, next, values, hcomponent, h => by
    rw [Element.pieces] at h
    obtain ⟨first, rest, rfl, hfirst, hrest⟩ := h.of_html.of_append
    have hattributes := hfirst.of_attributes
    cases hvoid : isVoidTag tag.text with
    | true =>
      rw [hvoid, if_pos rfl] at hrest
      cases hrest
      rw [List.append_nil]
      exact .void hcomponent hvoid hattributes
    | false =>
      rw [hvoid, if_neg Bool.false_ne_true] at hrest
      obtain ⟨content, close, rfl, hcontent, hclose⟩ := hrest.of_html.of_append
      cases hclose
      rw [List.append_nil]
      obtain ⟨items, rfl, hitems⟩ := ServerItem.of_children children path 0 next content hcontent
      exact .element hcomponent hvoid hattributes hitems

/-- The values for a child. -/
theorem ServerItem.of_child : ∀ (child : Child) (path : List Nat) (index next : Nat)
    (values : List String), ShownAs env (child.pieces path index next) values →
    ServerItem env child values
  | .text raw, path, index, next, values, h => by
    unfold ShownAs at h
    rw [Child.pieces, partsOf_textPieces] at h
    cases h
    exact .text raw
  | .markup (.element e), path, index, next, values, h => by
    rw [Child.pieces, Markup.pieces] at h
    split at h
    · rename_i hcomponent
      obtain ⟨t, rfl, ht⟩ := h.of_child
      exact .component hcomponent ht
    · rename_i hcomponent
      exact ServerItem.of_element e _ next values (Bool.eq_false_iff.2 hcomponent) h
  | .markup (.fragment span children), path, index, next, values, h => by
    obtain ⟨t, rfl, ht⟩ := h.of_child
    exact .fragment (FragmentItem.of_childValue? (.markup (.fragment span children)) (some t)
      (ht.map some))
  | .expr e, path, index, next, values, h => by
    obtain ⟨_, rfl, hvalue⟩ := h.of_child
    obtain ⟨t, ht, rfl⟩ := hvalue.of_map
    exact .expr ht
  | .empty, path, index, next, values, h => by
    cases h
    exact .empty
  | .spread e, path, index, next, values, h => by
    obtain ⟨_, rfl, hvalue⟩ := h.of_child
    obtain ⟨t, ht, rfl⟩ := hvalue.of_map
    exact .spread ht

/-- The values for children, child by child. -/
theorem ServerItem.of_children : ∀ (children : List Child) (path : List Nat) (index next : Nat)
    (values : List String), ShownAs env (childrenPieces path index next children) values →
    ∃ items, values = items.flatten ∧ List.Forall₂ (ServerItem env) children items
  | [], path, index, next, values, h => by
    cases h
    exact ⟨[], rfl, .nil⟩
  | child :: children, path, index, next, values, h => by
    rw [childrenPieces_cons] at h
    obtain ⟨first, rest, rfl, hfirst, hrest⟩ := h.of_append
    have hitem := ServerItem.of_child child path index next first hfirst
    obtain ⟨items, rfl, hitems⟩ := ServerItem.of_children children _ _ _ rest hrest
    exact ⟨first :: items, rfl, .cons hitem hitems⟩

end

/-- What the server makes of the children of an element. Each expression or spread among them is an
argument of the call, escaped and with its value now. A fragment among them is an argument, and in
it expressions are not escaped, at any depth of fragments. An element that cannot have children
loses them. -/
theorem server_children_escaped (e : Element) (env : Env) (table table' : TemplateTable)
    (code : String) (hserver : env.options.isServer = true) (hcomponent : e.isComponent = false)
    (hrun : (emitMarkup (.element e)).runFrom env table = (.ok code, table')) :
    ∃ id attributes items,
      code = "_$ssr(" ++ joinWith ", " (id :: (attributes ++ items.flatten)) ++ ")" ∧
      AttributeArguments attributes ∧ (isVoidTag e.tag.text = true → items = []) ∧
      (isVoidTag e.tag.text = false → List.Forall₂ (ServerItem env) e.children items) := by
  have helement : (emitters.serverElement e).runFrom env table = (.ok code, table') := by
    rw [emitMarkup_eq, Emitters.markupText] at hrun
    unfold Emitters.element at hrun
    rw [hcomponent, if_neg Bool.false_ne_true] at hrun
    obtain ⟨_, _, hread, hrun⟩ := Emit.runFrom_bind_eq_ok.1 hrun
    cases hread
    rw [hserver, if_pos rfl] at hrun
    exact hrun
  obtain ⟨values, table₁, hvalues, hcall⟩ := Emit.runFrom_bind_eq_ok.1 helement
  obtain ⟨-, hparts⟩ := Emitters.mapM_serverValue?_eq_ok hvalues
  cases hcall
  have hshown : ShownAs env (e.pieces [] 0) (values.filterMap id) := by
    have hgives := Gives.of_mapM ⟨table, _, hparts⟩
    rw [List.forall₂_map_right_iff] at hgives
    unfold ShownAs
    rw [← partsOf_joinHtml, ← e.skeleton_pieces]
    exact hgives
  -- Of the arguments it matters only how they are shown.
  generalize values.filterMap id = arguments at hshown
  cases ServerItem.of_element e [] 0 arguments hcomponent hshown with
  | component hyes => cases hcomponent.symm.trans hyes
  | void _ hvoid hattributes =>
    refine ⟨_, _, [], by rw [List.flatten_nil, List.append_nil], hattributes, fun _ => rfl, ?_⟩
    exact fun hnot => (Bool.false_ne_true (hnot.symm.trans hvoid)).elim
  | element _ hvoid hattributes hitems =>
    refine ⟨_, _, _, rfl, hattributes, ?_, fun _ => hitems⟩
    exact fun hyes => (Bool.false_ne_true (hvoid.symm.trans hyes)).elim

/-- The paragraph `<p>{a()}<>{b()}</></p>`, with two calls of accessors. -/
def accessorParagraph : Element :=
  .mk ⟨0, 22⟩ (.plain "p") []
    [.expr (.call ⟨4, 7⟩ (.ident ⟨4, 5⟩ "a") none [] false),
      .markup (.fragment ⟨8, 18⟩ [.expr (.call ⟨11, 14⟩ (.ident ⟨11, 12⟩ "b") none [] false)])]

/-- The call in the paragraph is escaped, and that in the fragment is neither escaped nor made. -/
theorem server_children_escaped_accessors :
    ∃ id attributes items,
      "_$ssr(_tmpl$0, _$escape(a()), [b])" =
        "_$ssr(" ++ joinWith ", " (id :: (attributes ++ items.flatten)) ++ ")" ∧
      AttributeArguments attributes ∧
      (isVoidTag accessorParagraph.tag.text = true → items = []) ∧
      (isVoidTag accessorParagraph.tag.text = false →
        List.Forall₂ (ServerItem ⟨[], { target := .server }⟩) accessorParagraph.children items) :=
  server_children_escaped accessorParagraph ⟨[], { target := .server }⟩ {}
    ⟨["[\"<p>\", \"<!--#0-->\", \"<!--#1--></p>\"]"]⟩ _ rfl rfl (by rfl)

/-- A value that comes from outside reaches the HTML of the server without being escaped, if it is a
child of a fragment, and an accessor that is called there is not called. -/
theorem fragment_child_not_escaped :
    compile "<p><>\x7bcount()\x7d</></p>" "a.jsx" { target := .server } =
      .ok (some ("import \x7b ssr as _$ssr \x7d from \"sprig/server\";\n" ++
        "const _tmpl$0 = [\"<p>\", \"<!--#0--></p>\"];\n" ++ "_$ssr(_tmpl$0, [count])")) :=
  eq_ok_of_toOption (by decide +kernel)

end MarkupCompiler
