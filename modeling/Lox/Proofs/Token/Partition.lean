import Lox.Proofs.Token.Spans

/-!
# The source is partitioned

A text can be cut into pieces in one way only, so what is read from the parts of a source is its
token stream, and nothing else is.
-/

namespace Lox

variable {c : Char} {rest text after : List Char} {kind : Kind} {piece : Piece}

/-! ## One way to cut a text -/

/-- A lexeme that stands alone is one piece, of its kind. -/
theorem Lexeme.first_eq (h : Lexeme text kind) :
    ∃ c rest, text = c :: rest ∧ Piece.first c rest = ⟨text, .lexeme kind⟩ := by
  cases h with
  | symbol symbol => cases symbol <;> exact ⟨_, _, rfl, rfl⟩
  | keyword keyword => cases keyword <;> exact ⟨_, _, rfl, rfl⟩
  | @identifier c rest hstart hmore hnone =>
      refine ⟨c, rest, rfl, ?_⟩
      obtain ⟨htake, -⟩ := split_self hmore
      have hspelling : Keyword.ofSpelling? (String.ofList (c :: rest)) = none :=
        Lexeme.spells (.identifier hstart hmore hnone)
      rw [Piece.first_of_wordStart hstart]
      simp only [Piece.word, htake, hspelling]
  | @string contents hcontents =>
      exact ⟨'"', contents ++ ['"'], rfl, Piece.string_of_closed hcontents []⟩
  | whole hne hdigits =>
      obtain ⟨c, rest, rfl⟩ := List.exists_cons_of_ne_nil hne
      obtain ⟨hc, hrest⟩ := List.forall_mem_cons.mp hdigits
      obtain ⟨htake, hdrop⟩ := split_self hrest
      refine ⟨c, rest, rfl, ?_⟩
      rw [Piece.first_of_digit hc]
      simp only [Piece.number, htake, hdrop, Piece.fraction, List.append_nil,
        Numeral.ofDecimal?_whole hne hdigits]
  | @decimal digits places hne hdigits hplaces hfraction =>
      obtain ⟨c, rest, rfl⟩ := List.exists_cons_of_ne_nil hne
      obtain ⟨hc, hrest⟩ := List.forall_mem_cons.mp hdigits
      obtain ⟨htake, hdrop⟩ := split_append ('.' :: places) hrest (by rintro _ ⟨⟩; decide)
      have hplace : Piece.fraction ('.' :: places) = '.' :: places := by
        obtain ⟨place, more, rfl⟩ := List.exists_cons_of_ne_nil hplaces
        obtain ⟨hplace, hmore⟩ := List.forall_mem_cons.mp hfraction
        rw [Piece.fraction, if_pos hplace, List.takeWhile_eq_self_iff.mpr hmore]
      refine ⟨c, rest ++ '.' :: places, rfl, ?_⟩
      rw [Piece.first_of_digit hc]
      simp only [Piece.number, htake, hdrop, hplace,
        Numeral.ofDecimal?_decimal hne hdigits hplaces hfraction]

theorem Piece.first_of_blank (h : isBlank c) : first c rest = ⟨[c], .blank⟩ := by
  have hcases : c = ' ' ∨ c = '\r' ∨ c = '\t' ∨ c = '\n' := by simpa [isBlank] using h
  rcases hcases with rfl | rfl | rfl | rfl <;> rfl

/-- The longest lexeme at the beginning of a text is the piece there. -/
theorem Lexeme.first_append (h : Lexeme (c :: text) kind)
    (hlongest : ∀ other kind, Lexeme other kind → other <+: c :: (text ++ rest) →
      other.length ≤ (c :: text).length)
    (hcomment : ¬['/', '/'] <+: c :: (text ++ rest)) :
    Piece.first c (text ++ rest) = ⟨c :: text, .lexeme kind⟩ := by
  have hbegins : c :: text <+: c :: (text ++ rest) := ⟨rest, rfl⟩
  have hfirst : Piece.first c text = ⟨c :: text, .lexeme kind⟩ := by
    obtain ⟨_, _, ⟨⟩, hfirst⟩ := h.first_eq
    exact hfirst
  have hlength := (Piece.length_le_first h hbegins).1
  obtain ⟨after, hcut⟩ := Piece.first_cut c (text ++ rest)
  generalize Piece.first c (text ++ rest) = piece at hcut hlength
  generalize hwhole : c :: (text ++ rest) = whole at *
  cases hcut with
  | blank hblank =>
      cases hwhole
      rw [Piece.first_of_blank hblank] at hfirst
      cases hfirst
  | comment => exact absurd ⟨_, rfl⟩ hcomment
  | @lexeme found after other hother =>
      have hfound : found <+: found ++ after := List.prefix_append ..
      have hle := hlongest found other hother hfound
      obtain rfl := (List.prefix_of_prefix_length_le hbegins hfound hlength).eq_of_length_le hle
      obtain ⟨_, _, ⟨⟩, hotherFirst⟩ := hother.first_eq
      exact hotherFirst.symm.trans hfirst
  | unexpected _ _ hnone => exact absurd hbegins (hnone _ kind h)
  | unterminated hopen =>
      cases hwhole
      have hstring : Piece.first '"' text = Piece.string text := rfl
      rw [hstring, Piece.string_of_open fun hmem => hopen (List.mem_append_left _ hmem)] at hfirst
      cases hfirst

/-- Only the piece that begins there can be cut from a text. -/
theorem Cut.eq_first (h : Cut text piece after) :
    ∃ c rest, text = c :: rest ∧ piece = Piece.first c rest := by
  cases h with
  | blank hblank => exact ⟨_, _, rfl, (Piece.first_of_blank hblank).symm⟩
  | @comment contents _ hcontents hend =>
      obtain ⟨htake, -⟩ := split_append after (not_mem_decide hcontents) (by simpa using hend)
      refine ⟨'/', '/' :: contents ++ after, rfl, ?_⟩
      change _ = (⟨'/' :: '/' :: (contents ++ after).takeWhile (· ≠ '\n'), .comment⟩ : Piece)
      rw [htake]
  | @lexeme text _ kind hlexeme hlongest hcomment =>
      obtain ⟨c, more, rfl, -⟩ := hlexeme.first_eq
      exact ⟨c, more ++ after, rfl, (hlexeme.first_append hlongest hcomment).symm⟩
  | @unexpected c _ hblank hquote hnone =>
      refine ⟨c, after, rfl, ?_⟩
      obtain ⟨behind, hcut⟩ := Piece.first_cut c after
      generalize Piece.first c after = piece at hcut
      generalize hwhole : c :: after = whole at *
      cases hcut with
      | blank hother =>
          cases hwhole
          exact absurd hother hblank
      | comment => exact absurd ⟨_, rfl⟩ (hnone ['/'] _ (.symbol .slash))
      | lexeme hlexeme => exact absurd ⟨_, rfl⟩ (hnone _ _ hlexeme)
      | unexpected =>
          cases hwhole
          rfl
      | unterminated =>
          cases hwhole
          exact absurd rfl hquote
  | unterminated hopen => exact ⟨_, _, rfl, (Piece.string_of_open hopen).symm⟩

theorem piecesFrom_eq (skip : Nat) (text : List Char) :
    piecesFrom skip text = pieces (text.drop skip) := by
  induction text generalizing skip with
  | nil => simp [pieces, piecesFrom]
  | cons c rest ih =>
      cases skip with
      | zero => rfl
      | succ skip => exact ih skip

theorem Cut.pieces_eq (h : Cut text piece after) : pieces text = piece :: pieces after := by
  obtain ⟨c, rest, rfl, rfl⟩ := h.eq_first
  rw [pieces, piecesFrom, piecesFrom_eq, h.drop_eq]

/-! ## One way to read the items -/

variable {source : String}

/-- Nothing is read from blanks and comments but their line breaks. -/
theorem Trivia.items {gap : List Char} (h : Trivia after gap) (line : Nat) :
    itemsFrom line (pieces (gap ++ after)) = itemsFrom (line + lineBreaks gap) (pieces after) := by
  induction h generalizing line with
  | nil => rfl
  | @blank c gap hblank _ ih =>
      have hlines : lineBreaks (c :: gap) = lineBreaks [c] + lineBreaks gap :=
        lineBreaks_append [c] gap
      rw [List.cons_append, (Cut.blank hblank).pieces_eq, hlines, ← Nat.add_assoc, ← ih]
      rfl
  | @comment contents gap hcontents hend _ ih =>
      have hlines : lineBreaks ('/' :: '/' :: contents ++ gap) =
          lineBreaks ('/' :: '/' :: contents) + lineBreaks gap := lineBreaks_append _ gap
      rw [List.append_assoc, (Cut.comment hcontents hend).pieces_eq, hlines, ← Nat.add_assoc, ← ih]
      rfl

theorem Gap.items {p q : source.Pos} (h : Gap p q) :
    itemsFrom (lineAt p) (pieces (between p source.endPos)) =
      itemsFrom (lineAt q) (pieces (between q source.endPos)) := by
  obtain ⟨hpq, htrivia⟩ := h
  rw [← between_append hpq q.le_endPos, htrivia.items, lineAt_add hpq]

/-- A part is no shorter than any lexeme that begins where it does if none runs further. -/
theorem Span.length_le {span : Span source}
    (h : ∀ other : Span source, other.start = span.start → ∀ kind, Lexeme other.text kind →
      other.stop ≤ span.stop) (hlexeme : Lexeme text kind)
    (hbegins : text <+: between span.start source.endPos) : text.length ≤ span.text.length := by
  obtain ⟨after, hafter⟩ := hbegins
  obtain ⟨other, hstart, rfl, -⟩ := exists_of_text hlexeme.ne_nil hafter.symm
  have hstop := h other hstart kind hlexeme
  have hspan := between_append (Std.le_of_lt other.start_lt_stop) hstop
  rw [hstart] at hspan
  rw [Span.text, hstart, Span.text, ← hspan, List.length_append]
  exact Nat.le_add_right ..

/-- What a part gives is read from the piece that is cut there. -/
theorem Span.Gives.items {span : Span source} {item : Item} (h : span.Gives item) :
    itemsFrom (lineAt span.start) (pieces (between span.start source.endPos)) =
      item :: itemsFrom span.line (pieces (between span.stop source.endPos)) := by
  have hle := Std.le_of_lt span.start_lt_stop
  have hline : lineAt span.start + lineBreaks span.text = span.line := lineAt_add hle
  have htext : span.text ++ between span.stop source.endPos = between span.start source.endPos :=
    between_append hle span.stop.le_endPos
  cases h with
  | token hlexeme hlongest hcomment =>
      have hlength : ∀ text kind, Lexeme text kind → text <+: between span.start source.endPos →
          text.length ≤ span.text.length := fun _ _ => span.length_le hlongest
      rw [← htext] at hlength hcomment ⊢
      rw [(Cut.lexeme hlexeme hlength hcomment).pieces_eq, itemsFrom, hline]
  | @unexpected c hspan hblank hquote hnone =>
      have habsent : ∀ text kind, Lexeme text kind → ¬text <+: between span.start source.endPos := by
        rintro text kind hlexeme ⟨after, hafter⟩
        obtain ⟨other, hstart, rfl, -⟩ := exists_of_text hlexeme.ne_nil hafter.symm
        exact hnone other hstart kind hlexeme
      rw [hspan] at hline
      rw [← htext, hspan] at habsent ⊢
      rw [List.cons_append, List.nil_append] at habsent ⊢
      rw [(Cut.unexpected hblank hquote habsent).pieces_eq, itemsFrom, hline]
  | @unterminated contents hspan hcontents hend =>
      rw [hspan] at hline
      rw [← htext, hspan, hend, between_self, List.append_nil,
        (Cut.unterminated hcontents).pieces_eq, itemsFrom, hline]

/-- What is read from parts that follow a position is read from the text behind it. -/
theorem Follow.items {p : source.Pos} {spans : List (Span source)} {items : List Item}
    (h : Follow p spans) (hgives : List.Forall₂ Span.Gives spans items) :
    itemsFrom (lineAt p) (pieces (between p source.endPos)) =
      items ++ [.token ⟨.eof, "", lineAt source.endPos⟩] := by
  induction hgives generalizing p with
  | nil =>
      rw [Gap.items h, between_self]
      rfl
  | cons hgives _ ih =>
      rw [h.1.items, hgives.items, Span.line, ih h.2]
      rfl

/-! ## The partition -/

theorem Span.Gives.category_ne_eof {span : Span source} {token : Token}
    (h : span.Gives (.token token)) : token.category ≠ .eof := by
  cases h with
  | token hlexeme => exact hlexeme.category_ne_eof

theorem Span.Gives.fault_ne_invalidNumber {span : Span source} {error : LexicalError}
    (h : span.Gives (.error error)) (text : String) : error.fault ≠ .invalidNumber text := by
  cases h <;> nofun

theorem exists_gives {spans : List (Span source)} {items : List Item}
    (h : List.Forall₂ Span.Gives spans items) : ∀ item ∈ items, ∃ span : Span source, span.Gives item := by
  induction h with
  | nil => simp
  | cons hgives _ ih => exact List.forall_mem_cons.mpr ⟨⟨_, hgives⟩, ih⟩

/-- A source is partitioned by parts that give its items, with only blanks and comments between them
and after the last, and one end marker behind all of them. No other items can be read from it. -/
theorem scan_partitions (source : String) :
    ∃ (spans : List (Span source)) (items : List Item),
      scan source = items ++ [.token ⟨.eof, "", lineAt source.endPos⟩] ∧
      Follow source.startPos spans ∧ List.Forall₂ Span.Gives spans items ∧
      (∀ token, .token token ∈ items → token.category ≠ .eof) ∧
      (∀ error, .error error ∈ items → ∀ text, error.fault ≠ .invalidNumber text) ∧
      ∀ (others : List (Span source)) (found : List Item),
        Follow source.startPos others → List.Forall₂ Span.Gives others found → found = items := by
  have htext : between source.startPos source.endPos = source.toList :=
    between_end source.splits_startPos
  have hline : lineAt source.startPos = 1 := by
    rw [lineAt, between_self]
    rfl
  obtain ⟨spans, items, hitems, hfollow, hgives⟩ :=
    (pieces_cuts source.toList).spans source.startPos htext
  rw [hline] at hitems
  refine ⟨spans, items, hitems, hfollow, hgives, fun token htoken => ?_, fun error herror => ?_,
    fun others found hothers hfound => ?_⟩
  · obtain ⟨span, hspan⟩ := exists_gives hgives _ htoken
    exact hspan.category_ne_eof
  · obtain ⟨span, hspan⟩ := exists_gives hgives _ herror
    exact hspan.fault_ne_invalidNumber
  · have hread := hothers.items hfound
    rw [hline, htext] at hread
    exact List.append_cancel_right (hread.symm.trans hitems)

end Lox
