import Lox.Proofs.Token.Lexeme

/-!
# How scanned tokens are spelled

A token that was scanned as a keyword is spelled like it, and an identifier like no keyword.
-/

namespace Lox

/-- A text of a kind is spelled like the keyword, or like none if it is an identifier. -/
def Kind.Spells (kind : Kind) (word : String) : Prop :=
  match kind with
  | .keyword k => word = k.spelling
  | .identifier => Keyword.ofSpelling? word = none
  | _ => True

/-- The token is spelled as its kind says. -/
def Token.Spelled (token : Token) : Prop :=
  token.kind.Spells token.lexeme

namespace Token.Spelled

variable {token : Token}

theorem keyword (h : token.Spelled) {keyword : Keyword}
    (hkind : token.category = .keyword keyword) : token.lexeme = keyword.spelling := by
  obtain ⟨kind, lexeme, line⟩ := token
  cases kind <;> simp_all [Spelled, Kind.Spells, category, Kind.category]

theorem identifier (h : token.Spelled) (hkind : token.category = .identifier)
    (keyword : Keyword) : token.lexeme ≠ keyword.spelling := by
  obtain ⟨kind, lexeme, line⟩ := token
  cases kind <;> simp only [category, Kind.category, reduceCtorEq] at hkind
  intro heq
  change Keyword.ofSpelling? lexeme = none at h
  change lexeme = keyword.spelling at heq
  rw [heq, Keyword.ofSpelling?_spelling] at h
  cases h

end Token.Spelled

/-! ## Lexemes -/

theorem Lexeme.spells {text : List Char} {kind : Kind} (h : Lexeme text kind) :
    kind.Spells (String.ofList text) := by
  cases h with
  | keyword keyword => exact String.ofList_toList
  | identifier _ _ hnone =>
      refine Option.eq_none_iff_forall_ne_some.mpr fun keyword hsome => ?_
      exact hnone keyword (by rw [Keyword.spelling_of_ofSpelling? hsome, String.toList_ofList])
  | _ => exact True.intro

/-- The text of the token is a lexeme of its kind. -/
def Token.Lexical (token : Token) : Prop :=
  Lexeme token.lexeme.toList token.kind

theorem Token.Lexical.spelled {token : Token} (h : token.Lexical) : token.Spelled := by
  have hspells := Lexeme.spells h
  rwa [String.ofList_toList] at hspells

theorem lexical_of_mem_itemsFrom {line : Nat} {pieces : List Piece} {token : Token}
    (hpieces : ∀ piece ∈ pieces, ∀ kind, piece.class_ = .lexeme kind → Lexeme piece.text kind)
    (h : Item.token token ∈ itemsFrom line pieces) : token.category = .eof ∨ token.Lexical := by
  induction pieces generalizing line with
  | nil =>
      simp only [itemsFrom, List.mem_singleton, Item.token.injEq] at h
      rw [h]
      exact .inl rfl
  | cons piece rest ih =>
      have hrest := @ih (line + lineBreaks piece.text)
        (fun other hother => hpieces other (List.mem_cons_of_mem _ hother))
      rw [itemsFrom] at h
      cases hclass : piece.class_ with
      | lexeme kind =>
          simp only [hclass, List.mem_cons, Item.token.injEq] at h
          rcases h with rfl | h
          · refine .inr ?_
            rw [Token.Lexical, String.toList_ofList]
            exact hpieces piece List.mem_cons_self kind hclass
          · exact hrest h
      | fault fault =>
          simp only [hclass, List.mem_cons, reduceCtorEq, false_or] at h
          exact hrest h
      | blank =>
          simp only [hclass] at h
          exact hrest h
      | comment =>
          simp only [hclass] at h
          exact hrest h

/-- The text of every token of a source but its end marker is a lexeme of its kind. -/
theorem lexical_of_mem_tokens {source : String} {token : Token} (h : token ∈ tokens source) :
    token.category = .eof ∨ token.Lexical := by
  obtain ⟨item, hitem, htoken⟩ := List.mem_filterMap.mp h
  cases item with
  | error error => cases htoken
  | token found =>
      cases htoken
      exact lexical_of_mem_itemsFrom (pieces_cuts source.toList).lexeme_text hitem

/-- Every token of a source is spelled as its kind says. -/
theorem spelled_of_mem_tokens {source : String} {token : Token} (h : token ∈ tokens source) :
    token.Spelled := by
  rcases lexical_of_mem_tokens h with heof | hlexical
  · obtain ⟨kind, lexeme, line⟩ := token
    cases kind <;> simp only [Token.category, Kind.category, reduceCtorEq] at heof
    exact True.intro
  · exact hlexical.spelled

end Lox
