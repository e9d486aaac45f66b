import Lox.Proofs.Token.Spelling
import Mathlib.Data.List.Forall2

/-!
# Spans of the source

The items of a text are read from parts of it that come one after another, each from one character
boundary to another. Between them and after the last are only blanks and comments.
-/

namespace Lox

variable {source : String}

/-! ## Parts of a text -/

/-- The characters from one position to another. -/
def between (p q : source.Pos) : List Char :=
  (source.extract p q).toList

theorem between_append {p q r : source.Pos} (hpq : p ≤ q) (hqr : q ≤ r) :
    between p q ++ between q r = between p r := by
  rw [between, between, between, ← String.toList_append, String.toList_inj,
    ← String.toByteArray_inj, String.toByteArray_append]
  exact (ByteArray.extract_eq_extract_append_extract q.offset.byteIdx hpq hqr).symm

theorem between_of_splits {p q : source.Pos} {before text after : String}
    (hp : p.Splits before (text ++ after)) (hq : q.Splits (before ++ text) after) :
    p ≤ q ∧ between p q = text.toList := by
  obtain ⟨hle, hslice⟩ := String.copy_slice_eq_iff_splits.mpr ⟨before, after, hp, hq⟩
  rw [between, String.extract_eq_copy_slice p q hle, hslice]
  exact ⟨hle, rfl⟩

theorem between_end {p : source.Pos} {before after : String} (h : p.Splits before after) :
    between p source.endPos = after.toList := by
  have hend : source.endPos.Splits (before ++ after) "" :=
    h.eq_append ▸ source.splits_endPos
  exact (between_of_splits (String.append_empty.symm ▸ h) hend).2

/-- A position lies behind any beginning of what comes after another one. -/
theorem exists_between {p : source.Pos} {xs ys : List Char}
    (h : between p source.endPos = xs ++ ys) :
    ∃ q, p ≤ q ∧ between p q = xs ∧ between q source.endPos = ys := by
  have hafter : (source.sliceFrom p).copy = String.ofList xs ++ String.ofList ys := by
    rw [between_end p.splits] at h
    rw [← String.toList_inj, h, String.toList_append, String.toList_ofList, String.toList_ofList]
  have hp := p.splits
  rw [hafter] at hp
  obtain ⟨hle, htext⟩ := between_of_splits hp hp.splits_rotateRight
  refine ⟨hp.rotateRight, hle, ?_, ?_⟩
  · rw [htext, String.toList_ofList]
  · rw [between_end hp.splits_rotateRight, String.toList_ofList]

theorem between_self (p : source.Pos) : between p p = [] := by
  rw [between, String.extract_eq_copy_slice p p (Std.le_refl p), String.copy_slice_self]
  rfl

theorem eq_of_between_eq_nil {p q : source.Pos} (hpq : p ≤ q) (h : between p q = []) : p = q := by
  have happend := between_append hpq q.le_endPos
  rw [h, List.nil_append, between_end p.splits, between_end q.splits, String.toList_inj] at happend
  have hq := q.splits
  rw [happend] at hq
  exact p.splits.pos_eq_of_eq_right hq

/-- The line of a position: one more than the number of line breaks before it. -/
def lineAt (p : source.Pos) : Nat :=
  1 + lineBreaks (between source.startPos p)

theorem lineBreaks_append (xs ys : List Char) :
    lineBreaks (xs ++ ys) = lineBreaks xs + lineBreaks ys :=
  List.count_append

theorem lineAt_add {p q : source.Pos} (hpq : p ≤ q) :
    lineAt p + lineBreaks (between p q) = lineAt q := by
  rw [lineAt, lineAt, ← between_append p.startPos_le hpq, lineBreaks_append, Nat.add_assoc]

/-- A nonempty part of a source, from one character boundary to another. -/
structure Span (source : String) where
  start : source.Pos
  stop : source.Pos
  start_lt_stop : start < stop

namespace Span

/-- The characters of the part. -/
def text (span : Span source) : List Char :=
  between span.start span.stop

/-- The line on which the part ends. -/
def line (span : Span source) : Nat :=
  lineAt span.stop

theorem text_begins (span : Span source) : span.text <+: between span.start source.endPos := by
  rw [text, ← between_append (Std.le_of_lt span.start_lt_stop) span.stop.le_endPos]
  exact List.prefix_append ..

/-- The part that begins at a position with a given text. -/
theorem exists_of_text {p : source.Pos} {xs ys : List Char} (hne : xs ≠ [])
    (h : between p source.endPos = xs ++ ys) :
    ∃ span : Span source, span.start = p ∧ span.text = xs ∧ between span.stop source.endPos = ys := by
  obtain ⟨q, hpq, htext, hrest⟩ := exists_between h
  refine ⟨⟨p, q, Std.lt_of_le_of_ne hpq ?_⟩, rfl, htext, hrest⟩
  rintro rfl
  exact hne (htext.symm.trans (between_self p))

/-- What is read from a part of the source. A token is the longest lexeme that begins there, where no
comment begins. An error is a character that is no blank and no quotation mark and begins no lexeme, or
a string that is not closed and runs to the end. -/
inductive Gives (span : Span source) : Item → Prop where
  | token {kind : Kind} :
      Lexeme span.text kind →
        (∀ other : Span source, other.start = span.start → ∀ kind, Lexeme other.text kind →
          other.stop ≤ span.stop) →
        ¬['/', '/'] <+: between span.start source.endPos →
          Gives span (.token ⟨kind, String.ofList span.text, span.line⟩)
  | unexpected {c : Char} :
      span.text = [c] → ¬isBlank c → c ≠ '"' →
        (∀ other : Span source, other.start = span.start → ∀ kind, ¬Lexeme other.text kind) →
          Gives span (.error ⟨.unexpectedCharacter c, span.line⟩)
  | unterminated {contents : List Char} :
      span.text = '"' :: contents → '"' ∉ contents → span.stop = source.endPos →
        Gives span (.error ⟨.unterminatedString, span.line⟩)

end Span

/-! ## Gaps -/

/-- Blanks and comments, when `after` follows. A comment runs up to a line break or to the end. -/
inductive Trivia (after : List Char) : List Char → Prop where
  | nil : Trivia after []
  | blank {c : Char} {gap : List Char} : isBlank c → Trivia after gap → Trivia after (c :: gap)
  | comment {contents gap : List Char} :
      '\n' ∉ contents → (∀ d ∈ (gap ++ after).head?, d = '\n') → Trivia after gap →
        Trivia after ('/' :: '/' :: contents ++ gap)

/-- There are only blanks and comments from one position to another. -/
def Gap (p q : source.Pos) : Prop :=
  p ≤ q ∧ Trivia (between q source.endPos) (between p q)

/-- The parts come one after another from a position on, with only gaps before each and after the
last. -/
def Follow (p : source.Pos) : List (Span source) → Prop
  | [] => Gap p source.endPos
  | span :: spans => Gap p span.start ∧ Follow span.stop spans

theorem Gap.refl (p : source.Pos) : Gap p p := by
  refine ⟨Std.le_refl p, ?_⟩
  rw [between_self]
  exact .nil

theorem Follow.of_gap {p q : source.Pos} {spans : List (Span source)}
    (hgap : ∀ stop, Gap q stop → Gap p stop) (h : Follow q spans) : Follow p spans := by
  cases spans with
  | nil => exact hgap _ h
  | cons span spans => exact ⟨hgap _ h.1, h.2⟩

/-- A blank or a comment right before a gap is part of it. -/
theorem Gap.of_cut {p q stop : source.Pos} {piece : Piece} (hpq : p ≤ q)
    (htext : between p q = piece.text)
    (hcut : Cut (between p source.endPos) piece (between q source.endPos))
    (hclass : piece.class_ = .blank ∨ piece.class_ = .comment) (h : Gap q stop) : Gap p stop := by
  obtain ⟨hstop, htrivia⟩ := h
  refine ⟨Std.le_trans hpq hstop, ?_⟩
  rw [← between_append hpq hstop, htext]
  have hrest := between_append hstop stop.le_endPos
  generalize between q source.endPos = rest at hcut hrest
  generalize between p source.endPos = text at hcut
  cases hcut with
  | blank hblank => exact .blank hblank htrivia
  | comment hcontents hend => exact .comment hcontents (hrest ▸ hend) htrivia
  | _ => rcases hclass with hclass | hclass <;> cases hclass

/-! ## Reading the items -/

/-- No lexeme that begins where a part does runs further than the part if none is longer. -/
theorem Span.longest {span : Span source}
    (h : ∀ text kind, Lexeme text kind → text <+: between span.start source.endPos →
      text.length ≤ span.text.length) (other : Span source) (hstart : other.start = span.start)
    (kind : Kind) (hlexeme : Lexeme other.text kind) : other.stop ≤ span.stop := by
  refine Std.not_lt.mp fun hlt => ?_
  have hle := Std.le_of_lt hlt
  have hother : other.text = span.text ++ between span.stop other.stop := by
    rw [text, text, hstart, between_append (Std.le_of_lt span.start_lt_stop) hle]
  have hlength := h _ kind hlexeme (hstart ▸ other.text_begins)
  rw [hother, List.length_append] at hlength
  have hnil : between span.stop other.stop = [] := List.length_eq_zero_iff.mp (by omega)
  exact absurd hlt (eq_of_between_eq_nil hle hnil ▸ Std.lt_irrefl)

/-- A piece that is no blank and no comment is read as the item that its part of the source gives. -/
theorem Cut.gives {span : Span source} {text rest : List Char} {piece : Piece}
    (h : Cut text piece rest) (hspan : span.text = piece.text)
    (htext : between span.start source.endPos = text)
    (hrest : between span.stop source.endPos = rest) :
    (piece.class_ = .blank ∨ piece.class_ = .comment) ∨ ∃ item, span.Gives item ∧
      ∀ more, itemsFrom (lineAt span.start) (piece :: more) = item :: itemsFrom span.line more := by
  have hline : lineAt span.start + lineBreaks piece.text = span.line := by
    rw [← hspan]
    exact lineAt_add (Std.le_of_lt span.start_lt_stop)
  cases h with
  | blank => exact .inl (.inl rfl)
  | comment => exact .inl (.inr rfl)
  | lexeme hlexeme hlongest hcomment =>
      subst hspan
      have hgives := Span.Gives.token hlexeme (span.longest (htext ▸ hlongest)) (htext ▸ hcomment)
      exact .inr ⟨_, hgives, fun more => by rw [itemsFrom, hline]⟩
  | unexpected hblank hquote hnone =>
      refine .inr ⟨_, .unexpected hspan hblank hquote fun other hstart kind hlexeme => ?_,
        fun more => by rw [itemsFrom, hline]⟩
      exact hnone _ kind hlexeme (htext ▸ hstart ▸ other.text_begins)
  | unterminated hcontents =>
      have hend := eq_of_between_eq_nil span.stop.le_endPos hrest
      exact .inr ⟨_, .unterminated hspan hcontents hend, fun more => by rw [itemsFrom, hline]⟩

/-- The pieces cut from what comes after a position give the items of parts that follow it. -/
theorem Cuts.spans {text : List Char} {pieces : List Piece} (h : Cuts text pieces)
    (p : source.Pos) (htext : between p source.endPos = text) :
    ∃ (spans : List (Span source)) (items : List Item),
      itemsFrom (lineAt p) pieces = items ++ [.token ⟨.eof, "", lineAt source.endPos⟩] ∧
      Follow p spans ∧ List.Forall₂ Span.Gives spans items := by
  induction h generalizing p with
  | nil =>
      obtain rfl := eq_of_between_eq_nil p.le_endPos htext
      exact ⟨[], [], rfl, Gap.refl _, .nil⟩
  | @cons text rest piece more hcut _ ih =>
      obtain ⟨span, rfl, hspan, hrest⟩ :=
        Span.exists_of_text hcut.text_ne_nil (htext.trans hcut.text_append)
      have hle := Std.le_of_lt span.start_lt_stop
      obtain ⟨spans, items, hitems, hfollow, hgives⟩ := ih span.stop hrest
      rcases hcut.gives hspan htext hrest with hclass | ⟨item, hitem, hread⟩
      · refine ⟨spans, items, ?_, hfollow.of_gap fun stop => ?_, hgives⟩
        · rw [← hitems, ← lineAt_add hle, ← Span.text, hspan]
          rcases hclass with hclass | hclass <;> simp only [itemsFrom, hclass]
        · exact Gap.of_cut hle hspan (htext ▸ hrest ▸ hcut) hclass
      · refine ⟨span :: spans, item :: items, ?_, ⟨Gap.refl _, hfollow⟩, .cons hitem hgives⟩
        rw [hread]
        exact congrArg (item :: ·) hitems

end Lox
