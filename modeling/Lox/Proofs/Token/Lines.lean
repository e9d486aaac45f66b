import Lox.Proofs.Token.Partition

/-!
# Lines

Every item of a token stream carries the line on which its part of the source ends, which is counted
from the text alone. A string is the only lexeme with line breaks inside, so every other item begins
and ends on one line, and along the stream the lines never go back.
-/

namespace Lox

/-- The line an item carries. -/
def Item.line : Item → Nat
  | token t => t.line
  | error e => e.line

/-! ## Line breaks inside a lexeme -/

theorem lineBreaks_of_all {p : Char → Bool} {text : List Char} (h : ∀ c ∈ text, p c)
    (hbreak : ¬p '\n') : lineBreaks text = 0 :=
  List.count_eq_zero.mpr fun hmem => hbreak (h _ hmem)

/-- The line breaks inside a string are those of its contents. -/
theorem lineBreaks_quoted (contents : List Char) :
    lineBreaks ('"' :: contents ++ ['"']) = lineBreaks contents := by
  have hquote : lineBreaks ['"'] = 0 := rfl
  rw [show '"' :: contents = ['"'] ++ contents from rfl, lineBreaks_append, lineBreaks_append,
    hquote, Nat.zero_add, Nat.add_zero]

/-- A lexeme that is no string has no line break inside. -/
theorem Lexeme.lineBreaks_eq_zero {text : List Char} {kind : Kind} (h : Lexeme text kind)
    (hkind : kind.category ≠ .string) : lineBreaks text = 0 := by
  cases h with
  | symbol symbol => cases symbol <;> rfl
  | keyword keyword => cases keyword <;> rfl
  | @identifier c rest hstart hmore _ =>
      rw [show c :: rest = [c] ++ rest from rfl, lineBreaks_append,
        lineBreaks_of_all (List.forall_mem_singleton.mpr hstart) (by decide),
        lineBreaks_of_all hmore (by decide)]
  | string => exact absurd rfl hkind
  | whole _ hdigits => exact lineBreaks_of_all hdigits (by decide)
  | @decimal digits places _ hdigits _ hplaces =>
      rw [lineBreaks_append, show '.' :: places = ['.'] ++ places from rfl, lineBreaks_append,
        lineBreaks_of_all hdigits (by decide), lineBreaks_of_all hplaces (by decide)]
      rfl

/-- A string has the line breaks of its contents inside. -/
theorem Lexeme.lineBreaks_string {text : List Char} {contents : String}
    (h : Lexeme text (.string contents)) : lineBreaks text = lineBreaks contents.toList := by
  cases h with
  | string => rw [lineBreaks_quoted, String.toList_ofList]

/-! ## Lines of positions -/

variable {source : String}

/-- The last line of a source. -/
theorem lineAt_endPos (source : String) :
    lineAt source.endPos = 1 + lineBreaks source.toList := by
  rw [lineAt, between_end source.splits_startPos]

/-- A part begins on its last line but for the line breaks inside. -/
theorem Span.line_eq (span : Span source) : span.line = lineAt span.start + lineBreaks span.text :=
  (lineAt_add (Std.le_of_lt span.start_lt_stop)).symm

/-! ## Lines along the stream -/

/-- Pieces give no item on an earlier line than they begin on. -/
theorem le_line_of_mem_itemsFrom {line : Nat} {pieces : List Piece} {item : Item}
    (h : item ∈ itemsFrom line pieces) : line ≤ item.line := by
  induction pieces generalizing line with
  | nil =>
      obtain rfl := List.mem_singleton.mp h
      exact Nat.le_refl _
  | cons piece rest ih =>
      have hpiece : line ≤ line + lineBreaks piece.text := Nat.le_add_right ..
      rw [itemsFrom] at h
      cases hclass : piece.class_ with
      | lexeme | fault =>
          simp only [hclass, List.mem_cons] at h
          rcases h with rfl | hrest
          · exact hpiece
          · exact hpiece.trans (ih hrest)
      | blank | comment =>
          simp only [hclass] at h
          exact hpiece.trans (ih h)

/-- The lines of the items that pieces give never decrease. -/
theorem itemsFrom_lines_ordered (line : Nat) (pieces : List Piece) :
    (itemsFrom line pieces).Pairwise fun first second => first.line ≤ second.line := by
  induction pieces generalizing line with
  | nil => exact List.pairwise_singleton _ _
  | cons piece rest ih =>
      rw [itemsFrom]
      cases piece.class_ with
      | lexeme | fault =>
          exact List.pairwise_cons.mpr ⟨fun _ hmem => le_line_of_mem_itemsFrom hmem, ih _⟩
      | blank | comment => exact ih _

/-! ## Lines of items -/

/-- An item is given by a part of the source and carries the line on which the part ends: one more
than the line breaks before and inside the part. A string ends as many lines below its beginning as
its contents have line breaks, a string that is not closed ends on the last line, and everything else
ends on the line on which it begins. -/
structure Span.Places (span : Span source) (item : Item) : Prop where
  gives : span.Gives item
  counted : item.line = 1 + lineBreaks (between source.startPos span.stop)
  string : ∀ token contents, item = .token token → token.kind = .string contents →
    token.line = lineAt span.start + lineBreaks contents.toList
  plain : ∀ token, item = .token token → token.category ≠ .string →
    token.line = lineAt span.start
  unexpected : ∀ error c, item = .error error → error.fault = .unexpectedCharacter c →
    error.line = lineAt span.start
  unterminated : ∀ error, item = .error error → error.fault = .unterminatedString →
    error.line = 1 + lineBreaks source.toList

theorem Span.Gives.line_eq {span : Span source} {item : Item} (h : span.Gives item) :
    item.line = span.line := by
  cases h <;> rfl

/-- A part of the source places what it gives. -/
theorem Span.Gives.places {span : Span source} {item : Item} (h : span.Gives item) :
    span.Places item := by
  have hline := span.line_eq
  refine
    { gives := h
      counted := h.line_eq
      string := ?string
      plain := ?plain
      unexpected := ?unexpected
      unterminated := ?unterminated }
  case string =>
    rintro token contents rfl hkind
    cases h with
    | token hlexeme =>
        obtain rfl := hkind
        rw [hlexeme.lineBreaks_string] at hline
        exact hline
  case plain =>
    rintro token rfl hcategory
    cases h with
    | token hlexeme =>
        rw [hlexeme.lineBreaks_eq_zero hcategory, Nat.add_zero] at hline
        exact hline
  case unexpected =>
    rintro error c rfl hfault
    cases h with
    | @unexpected d htext hblank =>
        have hnone : lineBreaks [d] = 0 :=
          lineBreaks_of_all (p := fun d => !isBlank d) (by simpa using hblank) (by decide)
        rw [htext, hnone, Nat.add_zero] at hline
        exact hline
    | unterminated => cases hfault
  case unterminated =>
    rintro error rfl hfault
    cases h with
    | unexpected => cases hfault
    | unterminated _ _ hend =>
        have hlast : span.line = lineAt source.endPos := congrArg lineAt hend
        exact hlast.trans (lineAt_endPos source)

-- A comment, a string over two lines, a character that begins no lexeme, a name and the end marker.
example : (scan "// a\n\"b\nc\"\r\n@ d").map Item.line = [3, 4, 4, 4] := by decide

end Lox
