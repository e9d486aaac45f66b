import Lox.Proofs.Token.Partition

/-!
# Texts one under the other

A text whose strings are closed, a line break and another text are scanned as the two texts are, the
second so many lines further down. A string that is open at the end of the first text goes on below
it instead.
-/

namespace Lox

/-! ## Pieces up to a line break -/

section

variable {p : Char → Bool} (xs ys : List Char)

theorem takeWhile_seam (hp : p '\n' = false) :
    (xs ++ '\n' :: ys).takeWhile p = xs.takeWhile p := by
  induction xs with
  | nil => simp [hp]
  | cons c rest ih => simp only [List.cons_append, List.takeWhile_cons, ih]

theorem dropWhile_seam (hp : p '\n' = false) :
    (xs ++ '\n' :: ys).dropWhile p = xs.dropWhile p ++ '\n' :: ys := by
  induction xs with
  | nil => simp [hp]
  | cons c rest ih =>
      simp only [List.cons_append, List.dropWhile_cons, ih]
      split <;> rfl

/-- A list that ends before what follows is not seen further. -/
theorem takeWhile_append_of_dropWhile {xs : List Char} (h : xs.dropWhile p ≠ []) (ys : List Char) :
    (xs ++ ys).takeWhile p = xs.takeWhile p ∧
      (xs ++ ys).dropWhile p = xs.dropWhile p ++ ys := by
  induction xs with
  | nil => exact (h rfl).elim
  | cons c rest ih =>
      rw [List.dropWhile_cons] at h
      simp only [List.cons_append, List.takeWhile_cons, List.dropWhile_cons]
      split at h
      · next hc =>
          obtain ⟨htake, hdrop⟩ := ih h
          simp only [hc, if_true, htake, hdrop, and_self]
      · next hc => simp [hc]

end

namespace Piece

variable (c : Char) (rest below : List Char)

theorem fraction_seam : fraction (rest ++ '\n' :: below) = fraction rest := by
  match rest with
  | [] => rfl
  | [point] =>
      by_cases hpoint : point = '.'
      · subst hpoint
        rfl
      · simp [fraction, hpoint]
  | point :: d :: rest =>
      by_cases hpoint : point = '.'
      · subst hpoint
        have hdigit : Char.isDigit '\n' = false := by decide
        simp only [List.cons_append, fraction, takeWhile_seam rest below hdigit]
      · simp [fraction, hpoint]

theorem number_seam : number c (rest ++ '\n' :: below) = number c rest := by
  have hdigit : Char.isDigit '\n' = false := by decide
  simp only [number, takeWhile_seam rest below hdigit, dropWhile_seam rest below hdigit,
    fraction_seam]

theorem word_seam : word c (rest ++ '\n' :: below) = word c rest := by
  simp only [word, takeWhile_seam rest below (by decide : isWordChar '\n' = false)]

theorem withEqual_seam (extended plain : Symbol) :
    withEqual c extended plain (rest ++ '\n' :: below) = withEqual c extended plain rest := by
  cases rest with
  | nil => rfl
  | cons d rest =>
      by_cases hequal : d = '='
      · subst hequal
        rfl
      · simp [withEqual, hequal]

theorem slash_seam : slash (rest ++ '\n' :: below) = slash rest := by
  cases rest with
  | nil => rfl
  | cons d rest =>
      by_cases hslash : d = '/'
      · subst hslash
        have hline : (rest ++ '\n' :: below).takeWhile (· ≠ '\n') = rest.takeWhile (· ≠ '\n') :=
          takeWhile_seam rest below (by decide)
        simp only [List.cons_append, slash, hline]
      · simp [slash, hslash]

/-- A string that is closed does not see what is below. -/
theorem string_seam (h : (string rest).class_ ≠ .fault .unterminatedString) :
    string (rest ++ '\n' :: below) = string rest := by
  have hclosed : rest.dropWhile (· ≠ '"') ≠ [] := by
    intro hopen
    exact h (by simp only [string, hopen])
  obtain ⟨htake, hdrop⟩ := takeWhile_append_of_dropWhile hclosed ('\n' :: below)
  obtain ⟨quote, after, hafter⟩ := List.exists_cons_of_ne_nil hclosed
  simp only [string, htake, hdrop, hafter, List.cons_append]

theorem first_seam (h : (first c rest).class_ ≠ .fault .unterminatedString) :
    first c (rest ++ '\n' :: below) = first c rest := by
  unfold first at h ⊢
  split
  case h_20 => exact string_seam rest below h
  all_goals simp only [withEqual_seam, slash_seam, number_seam, word_seam]

end Piece

section

variable {text rest : List Char} {piece : Piece} {pieces : List Piece}

/-- What is cut from a text is cut from it with another text below as well. -/
theorem Cut.pieces_seam (h : Cut text piece rest)
    (hclosed : piece.class_ ≠ .fault .unterminatedString) (below : List Char) :
    Lox.pieces (text ++ '\n' :: below) = piece :: Lox.pieces (rest ++ '\n' :: below) := by
  obtain ⟨c, more, rfl, rfl⟩ := h.eq_first
  obtain ⟨tail, htext, hprefix⟩ := Piece.first_text c more
  have hlength : (Piece.first c more).text.length - 1 ≤ more.length := by
    rw [htext]
    exact hprefix.length_le
  rw [Lox.pieces, List.cons_append, piecesFrom, Piece.first_seam c more below hclosed,
    piecesFrom_eq, List.drop_append_of_le_length hlength, h.drop_eq]

/-- The pieces of a text with a line break and another text below it. -/
theorem Cuts.pieces_seam (h : Cuts text pieces)
    (hclosed : ∀ piece ∈ pieces, piece.class_ ≠ .fault .unterminatedString) (below : List Char) :
    Lox.pieces (text ++ '\n' :: below) = pieces ++ ⟨['\n'], .blank⟩ :: Lox.pieces below := by
  induction h with
  | nil => rfl
  | cons hcut _ ih =>
      obtain ⟨hfirst, hrest⟩ := List.forall_mem_cons.mp hclosed
      rw [hcut.pieces_seam hfirst, ih hrest, List.cons_append]

end

/-! ## Items -/

/-- The token, so many lines further down. -/
def Token.down (lines : Nat) (token : Token) : Token :=
  { token with line := token.line + lines }

/-- The item, so many lines further down. -/
def Item.down (lines : Nat) : Item → Item
  | token t => .token (t.down lines)
  | error e => .error { e with line := e.line + lines }

theorem itemsFrom_ne_nil (line : Nat) (pieces : List Piece) : itemsFrom line pieces ≠ [] := by
  induction pieces generalizing line with
  | nil => simp [itemsFrom]
  | cons piece rest ih =>
      rw [itemsFrom]
      cases piece.class_ <;> simp [ih]

theorem itemsFrom_down (line lines : Nat) (pieces : List Piece) :
    itemsFrom (line + lines) pieces = (itemsFrom line pieces).map (Item.down lines) := by
  induction pieces generalizing line with
  | nil => rfl
  | cons piece rest ih =>
      simp only [itemsFrom, Nat.add_right_comm line lines, ih]
      cases piece.class_ <;> rfl

/-- Pieces have the items that they have by themselves, but for the end marker. -/
theorem itemsFrom_append (line : Nat) (pieces more : List Piece) :
    itemsFrom line (pieces ++ more) = (itemsFrom line pieces).dropLast ++
      itemsFrom (line + lineBreaks (pieces.flatMap Piece.text)) more := by
  induction pieces generalizing line with
  | nil => rfl
  | cons piece rest ih =>
      have hlines : line + lineBreaks ((piece :: rest).flatMap Piece.text) =
          line + lineBreaks piece.text + lineBreaks (rest.flatMap Piece.text) := by
        rw [List.flatMap_cons, lineBreaks, List.count_append, ← Nat.add_assoc]
        rfl
      rw [hlines]
      simp only [List.cons_append, itemsFrom, ih]
      cases piece.class_ <;> simp [List.dropLast_cons_of_ne_nil, itemsFrom_ne_nil]

/-- The errors are the faults among the pieces. -/
theorem forall_error_itemsFrom {line : Nat} {pieces : List Piece} {p : LexicalFault → Prop} :
    (∀ error ∈ (itemsFrom line pieces).filterMap Item.error?, p error.fault) ↔
      ∀ piece ∈ pieces, ∀ fault, piece.class_ = .fault fault → p fault := by
  induction pieces generalizing line with
  | nil => simp [itemsFrom, Item.error?]
  | cons piece rest ih =>
      rw [itemsFrom, List.forall_mem_cons]
      cases hclass : piece.class_ with
      | fault fault =>
          simp only [List.filterMap_cons, Item.error?, List.forall_mem_cons, ih,
            PieceClass.fault.injEq, forall_eq']
      | _ =>
          simpa only [List.filterMap_cons, Item.error?, reduceCtorEq, false_imp_iff, implies_true,
            true_and] using ih

/-- Every string is closed when none is reported as open. -/
theorem forall_piece_closed {source : String} :
    (∀ error ∈ lexicalErrors source, error.fault ≠ .unterminatedString) ↔
      ∀ piece ∈ pieces source.toList, piece.class_ ≠ .fault .unterminatedString := by
  rw [lexicalErrors, scan, forall_error_itemsFrom (p := (· ≠ .unterminatedString))]
  refine forall₂_congr fun piece _ => ?_
  refine ⟨fun h hclass => h _ hclass rfl, fun h fault hclass hfault => h (hfault ▸ hclass)⟩

theorem toList_seam (above below : String) :
    (above ++ "\n" ++ below).toList = above.toList ++ '\n' :: below.toList := by
  simp

/-- A text whose strings are closed and another one below it have their items one after the other,
those of the second so many lines further down. -/
theorem scan_seam {above : String} (below : String)
    (h : ∀ error ∈ lexicalErrors above, error.fault ≠ .unterminatedString) :
    scan (above ++ "\n" ++ below) = (scan above).dropLast ++
      (scan below).map (Item.down (1 + lineBreaks above.toList)) := by
  have hpieces : pieces (above ++ "\n" ++ below).toList =
      pieces above.toList ++ ⟨['\n'], .blank⟩ :: pieces below.toList := by
    rw [toList_seam]
    exact (pieces_cuts above.toList).pieces_seam (forall_piece_closed.mp h) below.toList
  have hline : 1 + lineBreaks above.toList + lineBreaks ['\n'] =
      1 + (1 + lineBreaks above.toList) := by
    rw [show lineBreaks ['\n'] = 1 from rfl]
    omega
  rw [scan, hpieces, itemsFrom_append, (pieces_cuts above.toList).flatMap_text]
  simp only [itemsFrom, hline, itemsFrom_down]
  rfl

/-! ## Tokens -/

/-- The end marker is the last item. -/
theorem itemsFrom_eq (line : Nat) (pieces : List Piece) :
    itemsFrom line pieces = (itemsFrom line pieces).dropLast ++
      [.token ⟨.eof, "", line + lineBreaks (pieces.flatMap Piece.text)⟩] := by
  have happend := itemsFrom_append line pieces []
  rwa [List.append_nil] at happend

/-- No other item is an end marker. -/
theorem category_of_mem_dropLast (line : Nat) {text : List Char} {pieces : List Piece}
    (h : Cuts text pieces) :
    ∀ token ∈ (itemsFrom line pieces).dropLast.filterMap Item.token?, token.category ≠ .eof := by
  induction h generalizing line with
  | nil => simp [itemsFrom]
  | @cons _ _ piece rest hcut _ ih =>
      have hmore := ih (line + lineBreaks piece.text)
      rw [itemsFrom]
      cases hclass : piece.class_ with
      | lexeme kind =>
          rw [List.dropLast_cons_of_ne_nil (itemsFrom_ne_nil _ _)]
          exact List.forall_mem_cons.mpr ⟨(hcut.lexeme_text hclass).category_ne_eof, hmore⟩
      | fault fault =>
          rw [List.dropLast_cons_of_ne_nil (itemsFrom_ne_nil _ _)]
          exact hmore
      | _ => exact hmore

/-- The tokens of a text before the end marker. -/
theorem takeWhile_tokens (source : String) :
    (tokens source).takeWhile (·.category ≠ .eof) =
      (scan source).dropLast.filterMap Item.token? := by
  have hbody := category_of_mem_dropLast 1 (pieces_cuts source.toList)
  rw [tokens, scan, itemsFrom_eq, List.filterMap_append, List.dropLast_concat]
  rw [List.takeWhile_append_of_pos]
  · simp [Item.token?, Token.category, Kind.category]
  · simpa using hbody

/-- Both texts have their tokens one after the other. -/
theorem takeWhile_tokens_seam {above : String} (below : String) (h : lexicalErrors above = []) :
    (tokens (above ++ "\n" ++ below)).takeWhile (·.category ≠ .eof) =
      (tokens above).takeWhile (·.category ≠ .eof) ++
        ((tokens below).takeWhile (·.category ≠ .eof)).map
          (Token.down (1 + lineBreaks above.toList)) := by
  have hbelow : (scan below).map (Item.down (1 + lineBreaks above.toList)) ≠ [] := by
    simp [scan, itemsFrom_ne_nil]
  have htoken (lines : Nat) (item : Item) :
      (item.down lines).token? = item.token?.map (Token.down lines) := by
    cases item <;> rfl
  rw [takeWhile_tokens, takeWhile_tokens, takeWhile_tokens, scan_seam below (by simp [h]),
    List.dropLast_append_of_ne_nil hbelow, List.filterMap_append, ← List.map_dropLast,
    List.filterMap_map, List.map_filterMap]
  congr 2
  exact funext (htoken _)

/-- Neither text has lexical errors of its own, and none come about at the seam. -/
theorem lexicalErrors_seam {above below : String} (habove : lexicalErrors above = [])
    (hbelow : lexicalErrors below = []) : lexicalErrors (above ++ "\n" ++ below) = [] := by
  rw [lexicalErrors, List.filterMap_eq_nil_iff] at hbelow
  rw [lexicalErrors, scan_seam below (by simp [habove])]
  rw [lexicalErrors, List.filterMap_eq_nil_iff] at habove
  refine List.filterMap_eq_nil_iff.mpr fun item hitem => ?_
  rcases List.mem_append.mp hitem with hitem | hitem
  · exact habove item (List.dropLast_subset _ hitem)
  · obtain ⟨first, hfirst, rfl⟩ := List.mem_map.mp hitem
    have hnone := hbelow first hfirst
    cases first with
    | token t => rfl
    | error e => cases hnone

/-! ## Open strings -/

/-- A string that is open at the end of a text takes the line break below it in, and is reported
further down. -/
theorem Cuts.itemsFrom_open {text : List Char} {pieces : List Piece} (h : Cuts text pieces)
    (hopen : ∃ piece ∈ pieces, piece.class_ = .fault .unterminatedString) (line : Nat) :
    itemsFrom line (Lox.pieces (text ++ ['\n'])) ≠ (itemsFrom line pieces).dropLast ++
      [.token ⟨.eof, "", line + (1 + lineBreaks text)⟩] := by
  induction h generalizing line with
  | nil => simp at hopen
  | @cons text rest piece more hcut hrest ih =>
      by_cases hclass : piece.class_ = .fault .unterminatedString
      · cases hcut with
        | @unterminated contents hcontents =>
            have hlonger : Cut ('"' :: (contents ++ ['\n']))
                ⟨'"' :: (contents ++ ['\n']), .fault .unterminatedString⟩ [] :=
              .unterminated (by simpa using hcontents)
            have hlines : lineBreaks ('"' :: (contents ++ ['\n'])) =
                lineBreaks ('"' :: contents) + 1 := by
              simp [lineBreaks]
            rw [List.cons_append, hlonger.pieces_eq]
            cases hrest with
            | nil => simp [itemsFrom, Lox.pieces, piecesFrom, hlines]
            | cons hnone _ => exact absurd hnone.text_append.symm (by simp [hnone.text_ne_nil])
        | _ => cases hclass
      · have hlater : ∃ piece ∈ more, piece.class_ = .fault .unterminatedString := by
          obtain ⟨other, hmem, hother⟩ := hopen
          obtain rfl | hmem := List.mem_cons.mp hmem
          · exact absurd hother hclass
          · exact ⟨other, hmem, hother⟩
        have hline : line + (1 + lineBreaks text) =
            line + lineBreaks piece.text + (1 + lineBreaks rest) := by
          rw [hcut.text_append, lineBreaks_append]
          omega
        rw [hcut.pieces_seam hclass [], hline]
        have hmore := ih hlater (line + lineBreaks piece.text)
        simp only [itemsFrom]
        cases piece.class_ <;>
          simpa [List.dropLast_cons_of_ne_nil, itemsFrom_ne_nil] using hmore

/-- The items of a text end with the end marker, which is one line further down than there are line
breaks. If no string is reported as open, then whatever is written below the text is scanned after
its other items, as it is scanned by itself, but for the lines: all of them, of tokens, errors and
the end marker, are further down by the line breaks of the text and the one that follows it. If a
string is open, then this does not hold for all texts below. -/
theorem scan_at_line_break (above : String) :
    (scan above).getLast? = some (.token ⟨.eof, "", 1 + lineBreaks above.toList⟩) ∧
    ((∀ error ∈ lexicalErrors above, error.fault ≠ .unterminatedString) ↔
      ∀ below, scan (above ++ "\n" ++ below) =
        (scan above).dropLast ++ (scan below).map (Item.down (1 + lineBreaks above.toList))) := by
  have hcuts := pieces_cuts above.toList
  refine ⟨?_, fun hclosed below => scan_seam below hclosed, fun hseam => ?_⟩
  · rw [scan, itemsFrom_eq, hcuts.flatMap_text, List.getLast?_concat]
  · rw [forall_piece_closed]
    intro piece hmem hopen
    have hempty := hseam ""
    rw [scan, toList_seam] at hempty
    exact hcuts.itemsFrom_open ⟨piece, hmem, hopen⟩ 1 hempty

end Lox
