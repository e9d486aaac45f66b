import Lox.Proofs.Numeral.Reading
import Lox.Token.Stream

/-!
# The lexical grammar

`Lexeme` says which texts are lexemes, and of which kind. The piece that begins at a character is the
longest lexeme that does, or else a blank, a comment or a fault.
-/

namespace Lox

/-- The texts that are lexemes, with their kinds. The value of a number is the double nearest to what
its digits write. -/
inductive Lexeme : List Char → Kind → Prop where
  | symbol (symbol : Symbol) : Lexeme symbol.spelling.toList (.symbol symbol)
  | keyword (keyword : Keyword) : Lexeme keyword.spelling.toList (.keyword keyword)
  | identifier {c : Char} {rest : List Char} :
      isWordStart c → (∀ d ∈ rest, isWordChar d) →
        (∀ keyword : Keyword, keyword.spelling.toList ≠ c :: rest) → Lexeme (c :: rest) .identifier
  | string {contents : List Char} :
      '"' ∉ contents → Lexeme ('"' :: contents ++ ['"']) (.string (String.ofList contents))
  | whole {digits : List Char} :
      digits ≠ [] → (∀ d ∈ digits, d.isDigit) →
        Lexeme digits (.number (Float.ofScientific (Nat.ofDigitChars 10 digits 0) true 0))
  | decimal {digits places : List Char} :
      digits ≠ [] → (∀ d ∈ digits, d.isDigit) → places ≠ [] → (∀ d ∈ places, d.isDigit) →
        Lexeme (digits ++ '.' :: places)
          (.number (Float.ofScientific (Nat.ofDigitChars 10 (digits ++ places) 0) true places.length))

theorem Keyword.spelling_of_ofSpelling? {word : String} {keyword : Keyword}
    (h : ofSpelling? word = some keyword) : keyword.spelling = word := by
  simpa using List.find?_some h

theorem Keyword.spelling_word (keyword : Keyword) :
    ∃ c rest, keyword.spelling.toList = c :: rest ∧ isWordStart c ∧ ∀ d ∈ rest, isWordChar d := by
  cases keyword <;> exact ⟨_, _, rfl, by decide, List.all_eq_true.mp (by decide)⟩

theorem Lexeme.ne_nil {text : List Char} {kind : Kind} (h : Lexeme text kind) : text ≠ [] := by
  cases h with
  | symbol symbol => cases symbol <;> nofun
  | keyword keyword =>
      obtain ⟨c, rest, hspelling, -⟩ := Keyword.spelling_word keyword
      rw [hspelling]
      nofun
  | identifier | string => nofun
  | whole hne => exact hne
  | decimal hne => exact List.append_ne_nil_of_left_ne_nil hne _

theorem Lexeme.category_ne_eof {text : List Char} {kind : Kind} (h : Lexeme text kind) :
    kind.category ≠ .eof := by
  cases h <;> nofun

/-! ## The piece at a character -/

namespace Piece

variable {c : Char} {rest text : List Char} {kind : Kind}

theorem first_of_digit (h : c.isDigit) : first c rest = number c rest := by
  unfold first
  split
  case h_21 => rw [if_pos h]
  all_goals exact absurd h (by decide)

theorem not_isDigit_of_wordStart (h : isWordStart c) : ¬c.isDigit := by
  intro hdigit
  change (decide ('A'.val ≤ c.val ∧ c.val ≤ 'Z'.val) ||
    (decide ('a'.val ≤ c.val) && decide (c.val ≤ 'z'.val)) || c == '_') = true at h
  change (decide ('0'.val ≤ c.val) && decide (c.val ≤ '9'.val)) = true at hdigit
  simp only [UInt32.le_iff_toNat_le, Bool.or_eq_true, Bool.and_eq_true, decide_eq_true_eq,
    beq_iff_eq] at h hdigit
  have hbelow : '9'.val.toNat < 'A'.val.toNat ∧ 'A'.val.toNat < 'a'.val.toNat := by decide
  rcases h with (h | h) | rfl
  · omega
  · omega
  · exact absurd hdigit.2 (by decide)

theorem first_of_wordStart (h : isWordStart c) : first c rest = word c rest := by
  unfold first
  split
  case h_21 => rw [if_neg (not_isDigit_of_wordStart h), if_pos h]
  all_goals exact absurd h (by decide)

theorem withEqual_covers (d : Char) (extended plain : Symbol) (rest : List Char) :
    1 ≤ (withEqual d extended plain rest).text.length ∧
      (withEqual d extended plain rest).class_ ≠ .fault (.unexpectedCharacter c) := by
  unfold withEqual
  split
  · exact ⟨by simp, nofun⟩
  · exact ⟨Nat.le_refl _, nofun⟩

theorem slash_covers (rest : List Char) :
    1 ≤ (slash rest).text.length ∧ (slash rest).class_ ≠ .fault (.unexpectedCharacter c) := by
  unfold slash
  split
  · exact ⟨by simp, nofun⟩
  · exact ⟨Nat.le_refl _, nofun⟩

theorem prefix_takeWhile {p : Char → Bool} {xs ys : List Char} (h : ∀ d ∈ xs, p d)
    (hbegins : xs <+: ys) : xs <+: ys.takeWhile p := by
  obtain ⟨after, rfl⟩ := hbegins
  rw [List.takeWhile_append_of_pos h]
  exact List.prefix_append ..

/-- A word is as long as possible. -/
theorem length_le_word {more : List Char} (h : ∀ d ∈ more, isWordChar d) (hbegins : more <+: rest) :
    (c :: more).length ≤ (word c rest).text.length ∧
      (word c rest).class_ ≠ .fault (.unexpectedCharacter c) := by
  have hlength := (prefix_takeWhile h hbegins).length_le
  simp only [word]
  split
  · exact ⟨Nat.succ_le_succ hlength, nofun⟩
  · exact ⟨Nat.succ_le_succ hlength, nofun⟩

/-- A number is as long as possible. -/
theorem length_le_number {more : List Char}
    (hbegins : more <+: rest.takeWhile Char.isDigit ++ fraction (rest.dropWhile Char.isDigit)) :
    (c :: more).length ≤ (number c rest).text.length ∧
      (number c rest).class_ ≠ .fault (.unexpectedCharacter c) := by
  have hlength := hbegins.length_le
  simp only [number]
  split
  · exact ⟨Nat.succ_le_succ hlength, nofun⟩
  · exact ⟨Nat.succ_le_succ hlength, nofun⟩

theorem string_of_closed {contents : List Char} (h : '"' ∉ contents) (after : List Char) :
    string (contents ++ '"' :: after) =
      ⟨'"' :: contents ++ ['"'], .lexeme (.string (String.ofList contents))⟩ := by
  obtain ⟨htake, hdrop⟩ := split_append ('"' :: after) (not_mem_decide h) (by simp)
  simp only [string, hdrop, htake]

theorem string_of_open (h : '"' ∉ rest) :
    string rest = ⟨'"' :: rest, .fault .unterminatedString⟩ := by
  obtain ⟨htake, hdrop⟩ := split_self (not_mem_decide h)
  simp only [string, htake, hdrop]

theorem prefix_fraction {places : List Char} (hne : places ≠ []) (h : ∀ d ∈ places, d.isDigit)
    (after : List Char) : '.' :: places <+: fraction ('.' :: (places ++ after)) := by
  obtain ⟨place, more, rfl⟩ := List.exists_cons_of_ne_nil hne
  obtain ⟨hplace, hmore⟩ := List.forall_mem_cons.mp h
  rw [List.cons_append, fraction, if_pos hplace, List.takeWhile_append_of_pos hmore]
  exact ⟨after.takeWhile Char.isDigit, by simp⟩

/-- The piece that begins at a character is as long as any lexeme that does, and a fault only if there
is none. -/
theorem length_le_first (h : Lexeme text kind) (hbegins : text <+: c :: rest) :
    text.length ≤ (first c rest).text.length ∧
      (first c rest).class_ ≠ .fault (.unexpectedCharacter c) := by
  cases h with
  | symbol symbol =>
      cases symbol with
      | bang | equal | less | greater =>
          obtain ⟨rfl, -⟩ := List.cons_prefix_cons.mp hbegins
          exact withEqual_covers _ _ _ _
      | bangEqual | equalEqual | lessEqual | greaterEqual =>
          obtain ⟨rfl, after, rfl⟩ := List.cons_prefix_cons.mp hbegins
          exact ⟨Nat.le_refl _, nofun⟩
      | slash =>
          obtain ⟨rfl, -⟩ := List.cons_prefix_cons.mp hbegins
          exact slash_covers rest
      | _ =>
          obtain ⟨rfl, -⟩ := List.cons_prefix_cons.mp hbegins
          exact ⟨Nat.le_refl _, nofun⟩
  | keyword keyword =>
      obtain ⟨start, more, hspelling, hstart, hmore⟩ := Keyword.spelling_word keyword
      rw [hspelling] at hbegins ⊢
      obtain ⟨rfl, hrest⟩ := List.cons_prefix_cons.mp hbegins
      rw [first_of_wordStart hstart]
      exact length_le_word hmore hrest
  | identifier hstart hmore _ =>
      obtain ⟨rfl, hrest⟩ := List.cons_prefix_cons.mp hbegins
      rw [first_of_wordStart hstart]
      exact length_le_word hmore hrest
  | @string contents hcontents =>
      obtain ⟨rfl, after, hafter⟩ := List.cons_prefix_cons.mp hbegins
      obtain rfl : contents ++ '"' :: after = rest := by simpa using hafter
      change _ ≤ (string _).text.length ∧ (string _).class_ ≠ _
      rw [string_of_closed hcontents after]
      exact ⟨Nat.le_refl _, nofun⟩
  | whole hne hdigits =>
      obtain ⟨d, more, rfl⟩ := List.exists_cons_of_ne_nil hne
      obtain ⟨rfl, hrest⟩ := List.cons_prefix_cons.mp hbegins
      obtain ⟨hd, hmore⟩ := List.forall_mem_cons.mp hdigits
      rw [first_of_digit hd]
      exact length_le_number ((prefix_takeWhile hmore hrest).trans (List.prefix_append ..))
  | @decimal digits places hne hdigits hplaces hfraction =>
      obtain ⟨d, more, rfl⟩ := List.exists_cons_of_ne_nil hne
      obtain ⟨rfl, after, hafter⟩ := List.cons_prefix_cons.mp hbegins
      obtain rfl : more ++ '.' :: (places ++ after) = rest := by simpa using hafter
      obtain ⟨hd, hmore⟩ := List.forall_mem_cons.mp hdigits
      obtain ⟨htake, hdrop⟩ := split_append ('.' :: (places ++ after)) hmore
        (by rintro _ ⟨⟩; decide)
      rw [first_of_digit hd]
      refine length_le_number ?_
      rw [htake, hdrop]
      exact (List.prefix_append_right_inj _).mpr (prefix_fraction hplaces hfraction after)

end Piece

/-! ## Cutting a piece -/

/-- The characters that only keep lexemes apart. -/
def isBlank (c : Char) : Bool :=
  c ∈ [' ', '\r', '\t', '\n']

/-- A piece is cut from the beginning of a text, which goes on after it. A comment ends before a line
break or with the text, a lexeme is the longest at the beginning, where no comment begins, an
unexpected character is no blank and no quotation mark and begins no lexeme, and a string that is not
closed is the rest of the text. -/
inductive Cut : List Char → Piece → List Char → Prop where
  | blank {c : Char} {rest : List Char} :
      isBlank c → Cut (c :: rest) ⟨[c], .blank⟩ rest
  | comment {contents rest : List Char} :
      '\n' ∉ contents → (∀ d ∈ rest.head?, d = '\n') →
        Cut ('/' :: '/' :: contents ++ rest) ⟨'/' :: '/' :: contents, .comment⟩ rest
  | lexeme {text rest : List Char} {kind : Kind} :
      Lexeme text kind →
        (∀ other kind, Lexeme other kind → other <+: text ++ rest → other.length ≤ text.length) →
        ¬['/', '/'] <+: text ++ rest →
          Cut (text ++ rest) ⟨text, .lexeme kind⟩ rest
  | unexpected {c : Char} {rest : List Char} :
      ¬isBlank c → c ≠ '"' → (∀ text kind, Lexeme text kind → ¬text <+: c :: rest) →
        Cut (c :: rest) ⟨[c], .fault (.unexpectedCharacter c)⟩ rest
  | unterminated {contents : List Char} :
      '"' ∉ contents →
        Cut ('"' :: contents) ⟨'"' :: contents, .fault .unterminatedString⟩ []

namespace Cut

variable {text rest : List Char} {piece : Piece}

theorem text_append (h : Cut text piece rest) : text = piece.text ++ rest := by
  cases h <;> simp

theorem text_ne_nil (h : Cut text piece rest) : piece.text ≠ [] := by
  cases h with
  | lexeme hlexeme => exact hlexeme.ne_nil
  | _ => nofun

theorem lexeme_text (h : Cut text piece rest) {kind : Kind} (hclass : piece.class_ = .lexeme kind) :
    Lexeme piece.text kind := by
  cases h with
  | lexeme hlexeme => exact PieceClass.lexeme.inj hclass ▸ hlexeme
  | _ => cases hclass

end Cut

namespace Piece

variable {c : Char} {rest : List Char}

theorem not_mem_takeWhile {d : Char} {xs : List Char} : d ∉ xs.takeWhile (· ≠ d) := by
  intro hd
  simpa using List.mem_takeWhile_imp hd

theorem head_dropWhile {d : Char} {xs : List Char} : ∀ e ∈ (xs.dropWhile (· ≠ d)).head?, e = d := by
  intro e he
  have hhead := List.head?_dropWhile_not (· ≠ d) xs
  rw [he] at hhead
  simpa using hhead

/-- A lexeme that is found at a character is the longest one there. -/
theorem cut_lexeme {text after : List Char} {kind : Kind}
    (hfirst : first c rest = ⟨text, .lexeme kind⟩) (hafter : text ++ after = c :: rest)
    (h : Lexeme text kind) : Cut (c :: rest) (first c rest) after := by
  rw [hfirst, ← hafter]
  refine .lexeme h (fun other otherKind hother hbegins => ?_) fun hcomment => ?_
  · rw [hafter] at hbegins
    have hlength := (length_le_first hother hbegins).1
    rwa [hfirst] at hlength
  · rw [hafter] at hcomment
    obtain ⟨more, hmore⟩ := hcomment
    cases hmore
    cases hfirst

theorem cut_single {symbol : Symbol} (hfirst : first c rest = single c symbol)
    (hspelling : symbol.spelling.toList = [c]) : Cut (c :: rest) (first c rest) rest :=
  cut_lexeme hfirst rfl (hspelling ▸ .symbol symbol)

theorem cut_withEqual {extended plain : Symbol} (hfirst : first c rest = withEqual c extended plain rest)
    (hextended : extended.spelling.toList = [c, '=']) (hplain : plain.spelling.toList = [c]) :
    ∃ after, Cut (c :: rest) (first c rest) after := by
  unfold withEqual at hfirst
  split at hfirst
  · exact ⟨_, cut_lexeme hfirst rfl (hextended ▸ .symbol extended)⟩
  · exact ⟨rest, cut_single hfirst hplain⟩

theorem cut_slash (rest : List Char) : ∃ after, Cut ('/' :: rest) (first '/' rest) after := by
  have hfirst : first '/' rest = slash rest := rfl
  unfold slash at hfirst
  split at hfirst
  · next rest =>
      have hcomment := @Cut.comment (rest.takeWhile (· ≠ '\n')) (rest.dropWhile (· ≠ '\n'))
        not_mem_takeWhile head_dropWhile
      rw [List.cons_append, List.cons_append, List.takeWhile_append_dropWhile] at hcomment
      exact ⟨_, hfirst ▸ hcomment⟩
  · exact ⟨rest, cut_single hfirst rfl⟩

theorem cut_string (rest : List Char) : ∃ after, Cut ('"' :: rest) (first '"' rest) after := by
  have hfirst : first '"' rest = string rest := rfl
  by_cases hclosed : '"' ∈ rest
  · obtain ⟨contents, after, rfl, hcontents⟩ := List.eq_append_cons_of_mem hclosed
    rw [string_of_closed hcontents] at hfirst
    exact ⟨after, cut_lexeme hfirst (by simp) (.string hcontents)⟩
  · rw [string_of_open hclosed] at hfirst
    exact ⟨[], hfirst ▸ .unterminated hclosed⟩

/-- A point and the digits after it, or nothing. -/
theorem fraction_cases (rest : List Char) :
    fraction rest = [] ∨ ∃ places after, places ≠ [] ∧ (∀ d ∈ places, d.isDigit) ∧
      fraction rest = '.' :: places ∧ rest = '.' :: places ++ after := by
  unfold fraction
  split
  · next d rest =>
      split
      · next hd =>
          refine .inr ⟨d :: rest.takeWhile Char.isDigit, rest.dropWhile Char.isDigit, nofun, ?_, rfl, ?_⟩
          · exact List.forall_mem_cons.mpr ⟨hd, fun e he => List.mem_takeWhile_imp he⟩
          · simp
      · exact .inl rfl
  · exact .inl rfl

theorem cut_number (h : c.isDigit) : ∃ after, Cut (c :: rest) (first c rest) after := by
  have hfirst : first c rest = number c rest := first_of_digit h
  have hne : c :: rest.takeWhile Char.isDigit ≠ [] := nofun
  have hdigits : ∀ d ∈ c :: rest.takeWhile Char.isDigit, d.isDigit :=
    List.forall_mem_cons.mpr ⟨h, fun d hd => List.mem_takeWhile_imp hd⟩
  have hrest : rest.takeWhile Char.isDigit ++ rest.dropWhile Char.isDigit = rest :=
    List.takeWhile_append_dropWhile
  rcases fraction_cases (rest.dropWhile Char.isDigit) with
    hnone | ⟨places, after, hsome, hplaces, hfraction, hdrop⟩
  · simp only [number, hnone, List.append_nil, Numeral.ofDecimal?_whole hne hdigits] at hfirst
    exact ⟨_, cut_lexeme hfirst (congrArg (c :: ·) hrest) (.whole hne hdigits)⟩
  · simp only [number, hfraction, Numeral.ofDecimal?_decimal hne hdigits hsome hplaces] at hfirst
    refine ⟨after, cut_lexeme hfirst ?_ (.decimal hne hdigits hsome hplaces)⟩
    rw [List.append_assoc, ← hdrop]
    exact congrArg (c :: ·) hrest

theorem cut_word (h : isWordStart c) : ∃ after, Cut (c :: rest) (first c rest) after := by
  have hfirst : first c rest = word c rest := first_of_wordStart h
  have hafter : c :: rest.takeWhile isWordChar ++ rest.dropWhile isWordChar = c :: rest :=
    congrArg (c :: ·) List.takeWhile_append_dropWhile
  simp only [word] at hfirst
  cases hspelling : Keyword.ofSpelling? (String.ofList (c :: rest.takeWhile isWordChar)) with
  | some keyword =>
      simp only [hspelling] at hfirst
      have htext : keyword.spelling.toList = c :: rest.takeWhile isWordChar := by
        rw [Keyword.spelling_of_ofSpelling? hspelling, String.toList_ofList]
      exact ⟨_, cut_lexeme hfirst hafter (htext ▸ .keyword keyword)⟩
  | none =>
      simp only [hspelling] at hfirst
      refine ⟨_, cut_lexeme hfirst hafter (.identifier h (fun d hd => List.mem_takeWhile_imp hd) ?_)⟩
      intro keyword htext
      rw [← htext, String.ofList_toList, Keyword.ofSpelling?_spelling] at hspelling
      cases hspelling

theorem cut_unexpected (hblank : ¬isBlank c) (hquote : c ≠ '"')
    (h : first c rest = ⟨[c], .fault (.unexpectedCharacter c)⟩) :
    Cut (c :: rest) (first c rest) rest := by
  rw [h]
  refine .unexpected hblank hquote fun text kind hlexeme hbegins => ?_
  exact (length_le_first hlexeme hbegins).2 (congrArg Piece.class_ h)

/-- Every piece is cut from the text that it begins. -/
theorem first_cut (c : Char) (rest : List Char) : ∃ after, Cut (c :: rest) (first c rest) after := by
  by_cases hdigit : c.isDigit
  · exact cut_number hdigit
  by_cases hword : isWordStart c
  · exact cut_word hword
  generalize hfirst : first c rest = piece
  have hpiece := hfirst
  unfold first at hpiece
  split at hpiece
  case h_1 | h_2 | h_3 | h_4 => exact ⟨rest, hpiece ▸ .blank (by decide)⟩
  case h_15 | h_16 | h_17 | h_18 => exact hfirst ▸ cut_withEqual (hfirst.trans hpiece.symm) rfl rfl
  case h_19 => exact hfirst ▸ cut_slash rest
  case h_20 => exact hfirst ▸ cut_string rest
  case h_21 =>
    rw [if_neg hdigit, if_neg hword] at hpiece
    have hblank : ¬isBlank c := by simp_all [isBlank]
    exact ⟨rest, hfirst ▸ cut_unexpected hblank ‹_› (hfirst.trans hpiece.symm)⟩
  all_goals exact ⟨rest, hfirst ▸ cut_single (hfirst.trans hpiece.symm) rfl⟩

/-- A piece begins the text that it is cut from. -/
theorem first_text (c : Char) (rest : List Char) :
    ∃ more, (first c rest).text = c :: more ∧ more <+: rest := by
  obtain ⟨after, hcut⟩ := first_cut c rest
  obtain ⟨d, more, htext⟩ := List.exists_cons_of_ne_nil hcut.text_ne_nil
  have happend := hcut.text_append
  rw [htext] at happend
  cases happend
  exact ⟨more, htext, List.prefix_append ..⟩

end Piece

/-! ## Cutting a text -/

/-- The pieces are cut from the text one after another, until nothing is left. -/
inductive Cuts : List Char → List Piece → Prop where
  | nil : Cuts [] []
  | cons {text rest : List Char} {piece : Piece} {more : List Piece} :
      Cut text piece rest → Cuts rest more → Cuts text (piece :: more)

theorem Cut.drop_eq {c : Char} {rest after : List Char}
    (h : Cut (c :: rest) (Piece.first c rest) after) :
    rest.drop ((Piece.first c rest).text.length - 1) = after := by
  obtain ⟨more, htext, -⟩ := Piece.first_text c rest
  have happend := h.text_append
  rw [htext] at happend ⊢
  cases happend
  exact List.drop_left

theorem piecesFrom_cuts (skip : Nat) (text : List Char) :
    Cuts (text.drop skip) (piecesFrom skip text) := by
  induction text generalizing skip with
  | nil =>
      rw [List.drop_nil]
      exact .nil
  | cons c rest ih =>
      cases skip with
      | succ skip => exact ih skip
      | zero =>
          obtain ⟨after, hcut⟩ := Piece.first_cut c rest
          exact .cons hcut (hcut.drop_eq ▸ ih _)

/-- The pieces of a text are cut from it. -/
theorem pieces_cuts (text : List Char) : Cuts text (pieces text) :=
  piecesFrom_cuts 0 text

/-- The texts of the pieces make up the text. -/
theorem Cuts.flatMap_text {text : List Char} {pieces : List Piece} (h : Cuts text pieces) :
    pieces.flatMap Piece.text = text := by
  induction h with
  | nil => rfl
  | cons hcut _ ih => rw [List.flatMap_cons, ih, ← hcut.text_append]

/-- The pieces that are lexemes are so by their texts. -/
theorem Cuts.lexeme_text {text : List Char} {pieces : List Piece} (h : Cuts text pieces) :
    ∀ piece ∈ pieces, ∀ kind, piece.class_ = .lexeme kind → Lexeme piece.text kind := by
  induction h with
  | nil => simp
  | cons hcut _ ih => exact List.forall_mem_cons.mpr ⟨fun kind => hcut.lexeme_text, ih⟩

end Lox
