import Mathlib.Data.List.Forall2
import MarkupCompiler.Emit.Markup
import MarkupCompiler.Proofs.Emission
import MarkupCompiler.Proofs.Pieces

/-!
# The server sends the client's template

On the server an element becomes a call with the chunks of its HTML and the values that stand
between them. `serverElement_rendering` says that the chunks, put together, are the template that
the client clones, and that they are cut where the values stand: one value for each part other than
the handlers of events, in the order of the parts, and behind the value of a child the marker of
that child.

The proof looks at one piece at a time. A piece has a value exactly if it is the slot of a part that
the server shows (`serverValue?_fits`), so pieces and values fit, and what is said of the chunks
follows by induction along the two lists.
-/

namespace MarkupCompiler

open Syntax Text

/-- Whether a part is an attribute that listens to an event. -/
def Syntax.Part.isHandler (part : Part) : Bool :=
  match part.place, part.value with
  | _, .spread _ => false
  | .inTag (some name), _ => isEventName name
  | _, _ => false

/-- The parts that have a value on the server, in order. -/
def Syntax.Element.serverParts (e : Element) : List Part :=
  (e.skeleton 0).parts.filter (!·.isHandler)

namespace Emitters

variable {g : Emitters} {env : Env} {table table' : TemplateTable}

/-! ## One piece -/

/-- A value fits a piece if there is one exactly where the server shows a part. -/
def Fits : Piece → Option String → Prop
  | .html _, value => value = none
  | .slot part, value => value.isSome = !part.isHandler

/-- No event is called by the empty name. -/
theorem isEventName_empty : isEventName "" = false := by
  simp [isEventName, eventName?]

/-- A computation that goes on to give a value gives one. -/
theorem isSome_of_runFrom {p : Emit String} {f : String → String} {value : Option String}
    (h : (p >>= fun text => (pure (some (f text)) : Emit (Option String))).runFrom env table =
      (.ok value, table')) : value.isSome = true := by
  obtain ⟨text, -, rfl⟩ := Emit.runFrom_bind_pure_eq_ok.1 h
  rfl

variable {value : PartValue} {pieces : List Piece} {values : List (Option String)}

/-- The value of a slot in a tag for an attribute that is not spread. -/
theorem serverAttribute?_of_not_spread (g : Emitters) (name : String) (h : ∀ v, value ≠ .spread v) :
    g.serverAttribute? name value =
      if isEventName name then pure none
      else g.partValue .plain value >>= fun text =>
        pure (some ("_$ssrAttr(" ++ quote (htmlName name) ++ ", " ++ text ++ ")")) := by
  cases value with
  | spread v => exact absurd rfl (h v)
  | expr v => rfl
  | markup m => rfl

/-- An attribute that is not spread is a handler if its name is an event's. -/
theorem isHandler_of_not_spread (path : List Nat) (name : Option String)
    (h : ∀ v, value ≠ .spread v) :
    Part.isHandler ⟨path, .inTag name, value⟩ = isEventName (name.getD "") := by
  cases value with
  | spread v => exact absurd rfl (h v)
  | expr v =>
    cases name with
    | none => exact isEventName_empty.symm
    | some name => rfl
  | markup m =>
    cases name with
    | none => exact isEventName_empty.symm
    | some name => rfl

/-- A slot in a tag has no value, and leaves the table as it is, exactly if it is a handler's. -/
theorem serverAttribute?_eq_ok {path : List Nat} {name : Option String} {text : Option String}
    (h : (g.serverAttribute? (name.getD "") value).runFrom env table = (.ok text, table')) :
    text.isSome = !Part.isHandler ⟨path, .inTag name, value⟩ ∧ (text = none → table' = table) := by
  by_cases hspread : ∃ v, value = .spread v
  · obtain ⟨v, rfl⟩ := hspread
    have hsome := isSome_of_runFrom h
    refine ⟨hsome, ?_⟩
    rintro rfl
    cases hsome
  · have hnot : ∀ v, value ≠ .spread v := fun v hv => hspread ⟨v, hv⟩
    rw [isHandler_of_not_spread path name hnot]
    rw [serverAttribute?_of_not_spread g _ hnot] at h
    -- The name of an event is the one reason for an attribute to have no value.
    by_cases hevent : isEventName (name.getD "") = true
    · rw [if_pos hevent] at h
      cases h
      exact ⟨by simp [hevent], fun _ => rfl⟩
    · rw [if_neg hevent] at h
      have hsome := isSome_of_runFrom h
      refine ⟨by simp [hevent, hsome], ?_⟩
      rintro rfl
      cases hsome

/-- The value of a piece fits it, and the table changes only where there is one. -/
theorem serverValue?_fits {piece : Piece} {value : Option String}
    (h : (g.serverValue? piece).runFrom env table = (.ok value, table')) :
    Fits piece value ∧ (value = none → table' = table) := by
  rcases piece with text | ⟨path, name | marker, partValue⟩
  · cases h
    exact ⟨rfl, fun _ => rfl⟩
  · exact serverAttribute?_eq_ok h
  · have hsome := isSome_of_runFrom h
    refine ⟨?_, ?_⟩
    · cases partValue <;> exact hsome
    · rintro rfl
      cases hsome

/-! ## All pieces -/

/-- A run over pieces gives values that fit them. Without the pieces that have none it is a run over
the parts that the server shows. -/
theorem mapM_serverValue?_eq_ok
    (h : (pieces.mapM g.serverValue?).runFrom env table = (.ok values, table')) :
    List.Forall₂ Fits pieces values ∧
      (((partsOf pieces).filter (!·.isHandler)).mapM fun part =>
        g.serverValue? (.slot part)).runFrom env table =
          (.ok ((values.filterMap id).map some), table') := by
  induction pieces generalizing values table with
  | nil =>
    cases h
    exact ⟨.nil, rfl⟩
  | cons piece pieces ih =>
    obtain ⟨value, values₁, table₁, hvalue, hvalues, rfl⟩ := Emit.runFrom_mapM_cons_eq_ok.1 h
    obtain ⟨hfits, htable⟩ := serverValue?_fits hvalue
    obtain ⟨hrest, hrun⟩ := ih hvalues
    refine ⟨.cons hfits hrest, ?_⟩
    cases piece with
    | html text =>
      cases hfits
      obtain rfl := htable rfl
      exact hrun
    | slot part =>
      cases value with
      | none =>
        -- A handler has no value and leaves the table as it was, so the run passes over it.
        obtain rfl := htable rfl
        have hhandler : part.isHandler = true := by simpa [Fits] using hfits
        simpa [hhandler] using hrun
      | some text =>
        have hshown : part.isHandler = false := by simpa [Fits] using hfits
        simp only [partsOf_slot, List.filter_cons, hshown, Bool.not_false, if_true,
          List.filterMap_cons, id, List.map_cons]
        exact Emit.runFrom_mapM_cons_eq_ok.2 ⟨_, _, _, hvalue, hrun, rfl⟩

/-! ## Chunks -/

/-- Chunks with a text in front have that text in front when they are joined. -/
theorem join_prependChunk (text : String) (rest : List String) :
    String.join (prependChunk text rest) = text ++ String.join rest := by
  cases rest with
  | nil => simp [prependChunk]
  | cons chunk rest => simp [prependChunk, String.append_assoc]

/-- There is at least one chunk. -/
theorem chunks_ne_nil (pairs : List (Piece × Option String)) : chunks pairs ≠ [] := by
  induction pairs with
  | nil => simp [chunks]
  | cons pair pairs ih =>
    obtain ⟨piece, value⟩ := pair
    cases value with
    | none =>
      cases piece with
      | html text =>
        simp only [chunks]
        cases hchunks : chunks pairs <;> simp [prependChunk]
      | slot part => exact ih
    | some text => simp [chunks]

/-- A text in front of chunks changes the first chunk only. -/
theorem prependChunk_eq (text : String) (pairs : List (Piece × Option String)) :
    ∃ first rest, chunks pairs = first :: rest ∧
      prependChunk text (chunks pairs) = (text ++ first) :: rest := by
  cases hchunks : chunks pairs with
  | nil => exact absurd hchunks (chunks_ne_nil pairs)
  | cons first rest => exact ⟨first, rest, rfl, rfl⟩

/-- A handler leaves nothing in the template: it stands in a tag. -/
theorem templateHtml_of_isHandler {part : Part} (h : part.isHandler = true) :
    (Piece.slot part).templateHtml = "" := by
  obtain ⟨path, name | marker, value⟩ := part
  · rfl
  · cases value <;> simp [Part.isHandler] at h

/-- Joined chunks are the HTML of the template. -/
theorem join_chunks (h : List.Forall₂ Fits pieces values) :
    String.join (chunks (pieces.zip values)) = String.join (pieces.map Piece.templateHtml) := by
  induction h with
  | nil => rfl
  | @cons piece value pieces values hfits _ ih =>
    simp only [List.zip_cons_cons, List.map_cons, String.join_cons]
    cases value with
    | none =>
      cases piece with
      | html text => rw [chunks, join_prependChunk, ih]; rfl
      | slot part =>
        -- Only a handler has no value, and it leaves nothing in the template either.
        have hhandler : part.isHandler = true := by simpa [Fits] using hfits
        rw [templateHtml_of_isHandler hhandler, String.empty_append]
        exact ih
    | some text => rw [chunks, String.join_cons, join_prependChunk, ih, String.empty_append]

/-- There is one chunk more than there are values. -/
theorem length_chunks (h : List.Forall₂ Fits pieces values) :
    (chunks (pieces.zip values)).length = (values.filterMap id).length + 1 := by
  induction h with
  | nil => rfl
  | @cons piece value pieces values hfits _ ih =>
    rw [List.zip_cons_cons]
    cases value with
    | none =>
      cases piece with
      | html text =>
        obtain ⟨first, rest, hchunks, hprepend⟩ := prependChunk_eq text (pieces.zip values)
        rw [hchunks] at ih
        rw [chunks, hprepend]
        exact ih
      | slot part => exact ih
    | some text =>
      obtain ⟨first, rest, hchunks, hprepend⟩ :=
        prependChunk_eq piece.templateHtml (pieces.zip values)
      rw [hchunks] at ih
      rw [chunks, hprepend]
      simpa using ih

/-- The chunk behind a value begins with what the part leaves in the template. -/
theorem chunk_after_value (h : List.Forall₂ Fits pieces values) {i : Nat} {part : Part}
    (hpart : ((partsOf pieces).filter (!·.isHandler))[i]? = some part) :
    ∃ rest,
      (chunks (pieces.zip values))[i + 1]? = some ((Piece.slot part).templateHtml ++ rest) := by
  induction h generalizing i with
  | nil => simp at hpart
  | @cons piece value pieces values hfits _ ih =>
    rw [List.zip_cons_cons]
    cases piece with
    | html text =>
      cases hfits
      obtain ⟨first, rest, hchunks, hprepend⟩ := prependChunk_eq text (pieces.zip values)
      obtain ⟨tail, htail⟩ := ih hpart
      refine ⟨tail, ?_⟩
      rw [hchunks] at htail
      rw [chunks, hprepend]
      exact htail
    | slot slotPart =>
      cases value with
      | none =>
        have hhandler : slotPart.isHandler = true := by simpa [Fits] using hfits
        exact ih (by simpa [hhandler] using hpart)
      | some text =>
        have hshown : slotPart.isHandler = false := by simpa [Fits] using hfits
        obtain ⟨first, rest, hchunks, hprepend⟩ :=
          prependChunk_eq (Piece.slot slotPart).templateHtml (pieces.zip values)
        simp only [partsOf_slot, List.filter_cons, hshown, Bool.not_false, if_true] at hpart
        rw [chunks, hprepend]
        -- The value of this slot ends the first chunk; the others come from the pieces behind it.
        cases i with
        | zero =>
          cases hpart
          exact ⟨first, rfl⟩
        | succ i =>
          obtain ⟨tail, htail⟩ := ih hpart
          rw [hchunks] at htail
          exact ⟨tail, htail⟩

/-! ## The element -/

/-- What the server makes of an element: chunks of HTML, and values to stand between them. -/
structure Rendering (g : Emitters) (env : Env) (e : Element) (table table₁ : TemplateTable)
    (chunks values : List String) : Prop where
  /-- There is one value for each part other than the handlers, in the order of the parts. -/
  values_of_parts :
    (e.serverParts.mapM fun part => g.serverValue? (.slot part)).runFrom env table =
      (.ok (values.map some), table₁)
  /-- The chunks are the template of the client, cut in pieces. -/
  join_chunks : String.join chunks = (e.skeleton 0).templateHtml
  /-- Each value stands between two chunks. -/
  length_chunks : chunks.length = values.length + 1
  /-- Behind the value of a child stands its marker. -/
  marker_after_child : ∀ (i : Nat) (part : Part) (marker : Nat), e.serverParts[i]? = some part →
    part.place = .inContent marker → ∃ rest, chunks[i + 1]? = some (markerComment marker ++ rest)
  /-- A static element has no values, and its one chunk is its HTML. -/
  of_isStatic : e.isStatic = true →
    values = [] ∧ ∃ html, e.staticHtml? = some html ∧ chunks = [html]

/-- The server shows no part of a static element. -/
theorem serverParts_of_isStatic {e : Element} (h : e.isStatic = true) : e.serverParts = [] := by
  rw [Element.serverParts, e.skeleton_parts_of_isStatic 0 h]
  rfl

/-- An element on the server is a call with the name of its chunks, which are the template of the
client cut where the values stand, and with the values of its parts. -/
theorem serverElement_rendering {e : Element} {code : String}
    (h : (g.serverElement e).runFrom env table = (.ok code, table')) :
    ∃ chunks values table₁, Rendering g env e table table₁ chunks values ∧
      table' = (table₁.intern (quoteArray chunks)).2 ∧
      code =
        "_$ssr(" ++ joinWith ", " ((table₁.intern (quoteArray chunks)).1 :: values) ++ ")" := by
  obtain ⟨values, table₁, hrun, hcall⟩ := Emit.runFrom_bind_eq_ok.1 h
  obtain ⟨hfits, hparts⟩ := mapM_serverValue?_eq_ok hrun
  rw [e.partsOf_skeleton_pieces] at hparts
  cases hcall
  have hjoin := join_chunks hfits
  have hlength := length_chunks hfits
  refine ⟨_, values.filterMap id, table₁, ⟨hparts, hjoin, hlength, ?_, ?_⟩, rfl, rfl⟩
  · intro i part marker hpart hplace
    obtain ⟨path, place, value⟩ := part
    cases hplace
    rw [Element.serverParts, ← e.partsOf_skeleton_pieces] at hpart
    exact chunk_after_value hfits hpart
  · intro hstatic
    -- Without parts there are no values, and then there is one chunk, which is the template.
    have hnone : values.filterMap id = [] := by
      have hshown := serverParts_of_isStatic hstatic
      rw [Element.serverParts] at hshown
      rw [hshown, List.mapM_nil, Emit.runFrom_pure] at hparts
      exact List.map_eq_nil_iff.1 (Except.ok.inj (Prod.mk.inj hparts).1).symm
    rw [hnone] at hlength
    obtain ⟨chunk, hchunk⟩ := List.length_eq_one_iff.1 hlength
    refine ⟨hnone, chunk, ?_, hchunk⟩
    rw [Element.staticHtml?, if_pos hstatic, Skeleton.templateHtml, ← hjoin, hchunk]
    simp

/-- The paragraph `<p title={t} onClick={f}>a{x}</p>`, which has a handler and two shown parts. -/
def paragraph : Element :=
  .mk ⟨0, 33⟩ (.plain "p")
    [.named "title" (.expr (.ident ⟨10, 11⟩ "t")), .named "onClick" (.expr (.ident ⟨22, 23⟩ "f"))]
    [.text "a", .expr (.ident ⟨27, 28⟩ "x")]

/-- The paragraph is sent in three chunks, with the values of its title and of its child. -/
theorem serverElement_rendering_paragraph :
    ∃ chunks values table₁,
      Rendering (below 2) ⟨[], { target := .server }⟩ paragraph {} table₁ chunks values ∧
      ⟨["[\"<p\", \">a\", \"<!--#0--></p>\"]"]⟩ = (table₁.intern (quoteArray chunks)).2 ∧
      "_$ssr(_tmpl$0, _$ssrAttr(\"title\", t), _$escape(x))" =
        "_$ssr(" ++ joinWith ", " ((table₁.intern (quoteArray chunks)).1 :: values) ++ ")" :=
  serverElement_rendering (by rfl)

end Emitters

end MarkupCompiler
