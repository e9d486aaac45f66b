import Lox.Proofs.Numeral.Reading
import Lox.Syntax.Printer

/-!
# Forms

A printed tree is made of words and of groups in parentheses, where a word may stand right before
the opening parenthesis. No text is that of two forms, whatever follows it.
-/

namespace Lox

/-! ## Words -/

/-- The characters that end a word. -/
def isDelimiter (c : Char) : Bool :=
  c == ' ' || c == '(' || c == ')'

/-- The text has no delimiter in it. -/
def Undelimited (word : String) : Prop :=
  ∀ c ∈ word.toList, isDelimiter c = false

/-- A word ends where a delimiter follows. -/
theorem Undelimited.unique {word word' : String} {after after' : List Char} (h : Undelimited word)
    (h' : Undelimited word') (hafter : ∀ c ∈ after.head?, isDelimiter c = true)
    (hafter' : ∀ c ∈ after'.head?, isDelimiter c = true)
    (heq : word.toList ++ after = word'.toList ++ after') : word = word' ∧ after = after' := by
  have hsplit := split_append (p := fun c => !isDelimiter c) after (by simpa [Undelimited] using h)
    (by simpa using hafter)
  have hsplit' := split_append (p := fun c => !isDelimiter c) after'
    (by simpa [Undelimited] using h') (by simpa using hafter')
  rw [heq] at hsplit
  exact ⟨String.toList_inj.mp (hsplit.1.symm.trans hsplit'.1), hsplit.2.symm.trans hsplit'.2⟩

/-- A word that is not empty. -/
structure IsWord (word : String) : Prop where
  ne_empty : word ≠ ""
  undelimited : Undelimited word

instance (word : String) : Decidable (Undelimited word) :=
  List.decidableBAll _ _

instance (word : String) : Decidable (IsWord word) :=
  decidable_of_iff (word ≠ "" ∧ Undelimited word)
    ⟨fun h => ⟨h.1, h.2⟩, fun h => ⟨h.ne_empty, h.undelimited⟩⟩

/-! ## Forms and their texts -/

/-- A word, or forms in parentheses after a word or nothing. -/
inductive Form where
  | word (text : String)
  | group (head : String) (items : List Form)

namespace Form

mutual

/-- The text of a form, with one blank between the items of a group. -/
def text : Form → String
  | word text => text
  | group head items => head ++ "(" ++ " ".intercalate (textAll items) ++ ")"

/-- The texts of forms. -/
def textAll : List Form → List String
  | [] => []
  | f :: rest => f.text :: textAll rest

end

mutual

/-- The words in a form are words. -/
def Legal : Form → Prop
  | word text => IsWord text
  | group head items => Undelimited head ∧ LegalAll items

/-- The words in forms are words. -/
def LegalAll : List Form → Prop
  | [] => True
  | f :: rest => f.Legal ∧ LegalAll rest

end

theorem intercalate_cons (item : String) (rest : List String) :
    " ".intercalate (item :: rest) = item ++ spaced rest := by
  induction rest generalizing item with
  | nil => simp [spaced]
  | cons next rest ih => rw [String.intercalate_cons_cons, ih]; simp [spaced, String.append_assoc]

theorem toList_spaced_cons (item : String) (rest : List String) :
    (spaced (item :: rest)).toList = ' ' :: (item.toList ++ (spaced rest).toList) := by
  simp [spaced]

theorem toList_group (head : String) (items : List Form) (after : List Char) :
    (group head items).text.toList ++ after =
      head.toList ++ '(' :: ((" ".intercalate (textAll items)).toList ++ ')' :: after) := by
  simp [text]

/-! ## Unique readability -/

/-- What follows a form begins with a blank or a closing parenthesis. -/
def Follows (after : List Char) : Prop :=
  ∀ c ∈ after.head?, c = ' ' ∨ c = ')'

theorem Follows.delimiter {after : List Char} (h : Follows after) :
    ∀ c ∈ after.head?, isDelimiter c = true := by
  intro c hc
  rcases h c hc with rfl | rfl <;> decide

theorem follows_spaced (items : List String) (after : List Char) :
    Follows ((spaced items).toList ++ ')' :: after) := by
  cases items with
  | nil => simp [Follows, spaced]
  | cons item rest => simp [Follows, toList_spaced_cons]

theorem delimiter_open (rest : List Char) :
    ∀ c ∈ ('(' :: rest).head?, isDelimiter c = true := by
  simp [isDelimiter]

/-- No form begins with a closing parenthesis. -/
theorem Legal.head_ne {f : Form} (h : f.Legal) (after rest : List Char) :
    f.text.toList ++ after ≠ ')' :: rest := by
  intro heq
  have hundelimited {word : String} (hword : Undelimited word) {more : List Char}
      (hbegins : word.toList = ')' :: more) : False :=
    absurd (hword ')' (by simp [hbegins])) (by decide)
  cases f with
  | word word =>
      rw [Legal] at h
      rw [text] at heq
      obtain ⟨c, more, hword⟩ :=
        List.exists_cons_of_ne_nil (String.toList_eq_nil_iff.not.mpr h.ne_empty)
      rw [hword] at heq
      cases heq
      exact hundelimited h.undelimited hword
  | group head items =>
      rw [Legal] at h
      rw [toList_group] at heq
      cases hhead : head.toList with
      | nil =>
          rw [hhead] at heq
          cases heq
      | cons c more =>
          rw [hhead] at heq
          cases heq
          exact hundelimited h.1 hhead

mutual

/-- No text is that of two forms, whatever follows. -/
theorem unique {f g : Form} (hf : f.Legal) (hg : g.Legal) {after after' : List Char}
    (hafter : Follows after) (hafter' : Follows after')
    (h : f.text.toList ++ after = g.text.toList ++ after') : f = g ∧ after = after' := by
  cases f with
  | word word =>
      cases g with
      | word word' =>
          rw [Legal] at hf hg
          obtain ⟨rfl, rfl⟩ :=
            hf.undelimited.unique hg.undelimited hafter.delimiter hafter'.delimiter h
          exact ⟨rfl, rfl⟩
      | group head' items' =>
          simp only [Legal] at hf hg
          rw [toList_group] at h
          obtain ⟨-, rfl⟩ := hf.undelimited.unique hg.1 hafter.delimiter (delimiter_open _) h
          simp [Follows] at hafter
  | group head items =>
      cases g with
      | word word' =>
          simp only [Legal] at hf hg
          rw [toList_group] at h
          obtain ⟨-, rfl⟩ := hf.1.unique hg.undelimited (delimiter_open _) hafter'.delimiter h
          simp [Follows] at hafter'
      | group head' items' =>
          rw [Legal] at hf hg
          rw [toList_group, toList_group] at h
          obtain ⟨rfl, hinside⟩ := hf.1.unique hg.1 (delimiter_open _) (delimiter_open _) h
          obtain ⟨rfl, rfl⟩ := unique_items hf.2 hg.2 (List.cons.inj hinside).2
          exact ⟨rfl, rfl⟩

/-- Nor is it that of two lists of forms, up to the parenthesis that closes them. -/
theorem unique_items {fs gs : List Form} (hf : LegalAll fs) (hg : LegalAll gs)
    {after after' : List Char}
    (h : (" ".intercalate (textAll fs)).toList ++ ')' :: after =
      (" ".intercalate (textAll gs)).toList ++ ')' :: after') : fs = gs ∧ after = after' := by
  cases fs with
  | nil =>
      cases gs with
      | nil => exact ⟨rfl, (List.cons.inj h).2⟩
      | cons g rest' =>
          rw [textAll, textAll, intercalate_cons, String.toList_append, List.append_assoc] at h
          exact absurd h.symm (hg.1.head_ne _ _)
  | cons f rest =>
      cases gs with
      | nil =>
          rw [textAll, textAll, intercalate_cons, String.toList_append, List.append_assoc] at h
          exact absurd h (hf.1.head_ne _ _)
      | cons g rest' =>
          simp only [textAll, intercalate_cons, String.toList_append, List.append_assoc] at h
          obtain ⟨rfl, hrest⟩ := unique hf.1 hg.1 (follows_spaced _ _) (follows_spaced _ _) h
          obtain ⟨rfl, rfl⟩ := unique_spaced hf.2 hg.2 hrest
          exact ⟨rfl, rfl⟩

theorem unique_spaced {fs gs : List Form} (hf : LegalAll fs) (hg : LegalAll gs)
    {after after' : List Char}
    (h : (spaced (textAll fs)).toList ++ ')' :: after =
      (spaced (textAll gs)).toList ++ ')' :: after') : fs = gs ∧ after = after' := by
  cases fs with
  | nil =>
      cases gs with
      | nil => exact ⟨rfl, (List.cons.inj h).2⟩
      | cons g rest' =>
          rw [textAll, textAll, toList_spaced_cons] at h
          simp [spaced] at h
  | cons f rest =>
      cases gs with
      | nil =>
          rw [textAll, textAll, toList_spaced_cons] at h
          simp [spaced] at h
      | cons g rest' =>
          simp only [textAll, toList_spaced_cons, List.cons_append, List.append_assoc,
            List.cons.injEq, true_and] at h
          obtain ⟨rfl, hrest⟩ := unique hf.1 hg.1 (follows_spaced _ _) (follows_spaced _ _) h
          obtain ⟨rfl, rfl⟩ := unique_spaced hf.2 hg.2 hrest
          exact ⟨rfl, rfl⟩

end

theorem text_injective {f g : Form} (hf : f.Legal) (hg : g.Legal) (h : f.text = g.text) :
    f = g := by
  have hlists := congrArg (String.toList · ++ []) h
  exact (unique hf hg (by simp [Follows]) (by simp [Follows]) hlists).1

end Form

end Lox
