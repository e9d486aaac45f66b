import Lox.Proofs.Grammar.Parsing

/-!
# Climbing and cascading

The grammar has one layer for each level of infix operators: an expression of a layer is operands of
the next tighter one, joined to the left by the operators of the layer. Reading layer by layer gives
the same as climbing by precedence, on faulty input too, and also where every expression inside
others is read so.
-/

namespace Lox.Grammar

variable {setting : Setting} {before after : State}

/-! ## Layer by layer -/

namespace Cascade

/-- While the next token is one of the operators, at most so often: takes it, reads another operand
and joins both to what was read before. -/
def fold (operators : List Category) (join : NodeId → Expr → Token → Expr → Expr)
    (operand : Parser Expr) : (turns : Nat) → Expr → Parser Expr
  | 0, _ => throw .outOfFuel
  | turns + 1, left => do
      let operator ← peek
      if operator.category ∈ operators then
        skip
        let right ← operand
        let id ← freshId
        fold operators join operand turns (join id left operator right)
      else
        return left

/-- Operands that are joined to the left by the operators. Each turn takes a token. -/
def leftAssociative (operators : List Category) (join : NodeId → Expr → Token → Expr → Expr)
    (operand : Parser Expr) : Parser Expr := do
  let left ← operand
  let state ← get
  fold operators join operand (state.rest.length + 1) left

/-- Products and quotients. -/
def factor (unary : Parser Expr) : Parser Expr :=
  leftAssociative [.symbol .slash, .symbol .star] .binary unary

/-- Sums and differences. -/
def term (unary : Parser Expr) : Parser Expr :=
  leftAssociative [.symbol .minus, .symbol .plus] .binary (factor unary)

/-- Comparisons by size. -/
def comparison (unary : Parser Expr) : Parser Expr :=
  leftAssociative
    [.symbol .greater, .symbol .greaterEqual, .symbol .less, .symbol .lessEqual] .binary (term unary)

/-- Comparisons for equality. -/
def equality (unary : Parser Expr) : Parser Expr :=
  leftAssociative [.symbol .bangEqual, .symbol .equalEqual] .binary (comparison unary)

/-- Conjunctions. -/
def logicAnd (unary : Parser Expr) : Parser Expr :=
  leftAssociative [.keyword .and_] .logical (equality unary)

/-- Disjunctions. -/
def logicOr (unary : Parser Expr) : Parser Expr :=
  leftAssociative [.keyword .or_] .logical (logicAnd unary)

/-- How a rule reads its input, where the operands of an expression are joined layer by layer. -/
def step (sub : Readers) : Readers
  | .operation level =>
      if level = loosest then logicOr (sub .unary) else Grammar.operation sub level
  | rule => rule.step sub

/-- Reads by a rule, layer by layer, following at most `fuel` references in a row. -/
def run : (fuel : Nat) → Readers
  | 0, _ => throw .outOfFuel
  | fuel + 1, rule => step (run fuel) rule

/-- Reads by a rule, layer by layer, following as many references as suffice. -/
@[irreducible] def read (rule : Rule) : Parser rule.Tree :=
  fun setting before => run (fuelFor before.rest.length) rule setting before

theorem result_read (rule : Rule) :
    result (read rule) setting before =
      result (run (fuelFor before.rest.length) rule) setting before := by
  unfold result read
  rfl

end Cascade

/-! ## Operators of one level -/

/-- The operators are those of a level, and `join` gives their trees. -/
structure Covers (level : Nat) (operators : List Category)
    (join : NodeId → Expr → Token → Expr → Expr) : Prop where
  mem_iff : ∀ category, category ∈ operators ↔ infixLevel category = some level
  join_eq : ∀ operator : Token, operator.category ∈ operators → ∀ id left right,
    join id left operator right = joined id left operator right

namespace Covers

theorem mem_operators_iff {layer : Layer} (hlayer : Layer.ofLevel layer.level = layer)
    (category : Category) :
    category ∈ layer.operators ↔ infixLevel category = some layer.level := by
  refine ⟨infixLevel_of_mem_operators, fun h => ?_⟩
  have hmem := mem_operators_of_infixLevel h
  rwa [hlayer] at hmem

/-- A layer of operators that are symbols. -/
theorem binary (layer : Layer) (hlayer : Layer.ofLevel layer.level = layer)
    (hsymbols : ∀ category ∈ layer.operators, ∀ keyword, category ≠ .keyword keyword) :
    Covers layer.level layer.operators .binary := by
  refine ⟨mem_operators_iff hlayer, fun operator hmem id left right => ?_⟩
  rw [joined]
  split
  · next heq => exact absurd heq (hsymbols _ hmem _)
  · rfl

/-- A layer of operators that are keywords. -/
theorem logical (layer : Layer) (hlayer : Layer.ofLevel layer.level = layer)
    (hkeywords : ∀ category ∈ layer.operators, ∃ keyword, category = .keyword keyword) :
    Covers layer.level layer.operators .logical := by
  refine ⟨mem_operators_iff hlayer, fun operator hmem id left right => ?_⟩
  obtain ⟨keyword, heq⟩ := hkeywords _ hmem
  rw [joined, heq]

theorem factor : Covers 6 [.symbol .slash, .symbol .star] .binary :=
  binary .factor rfl (by simp [Layer.operators])

theorem term : Covers 5 [.symbol .minus, .symbol .plus] .binary :=
  binary .term rfl (by simp [Layer.operators])

theorem comparison : Covers 4
    [.symbol .greater, .symbol .greaterEqual, .symbol .less, .symbol .lessEqual] .binary :=
  binary .comparison rfl (by simp [Layer.operators])

theorem equality : Covers 3 [.symbol .bangEqual, .symbol .equalEqual] .binary :=
  binary .equality rfl (by simp [Layer.operators])

theorem logicAnd : Covers 2 [.keyword .and_] .logical :=
  logical .logicAnd rfl (by simp [Layer.operators])

theorem logicOr : Covers 1 [.keyword .or_] .logical :=
  logical .logicOr rfl (by simp [Layer.operators])

variable {level : Nat} {operators : List Category} {join : NodeId → Expr → Token → Expr → Expr}

/-- The end marker is no operator. -/
theorem eof_not_mem (hcovers : Covers level operators join) : .eof ∉ operators := by
  intro hmem
  cases (hcovers.mem_iff .eof).mp hmem

end Covers

/-! ## Climbing from a level -/

theorem result_get : result get setting before = .ok before before :=
  rfl

theorem bind_of_eq {α β : Type} {first first' : Parser α} {second : α → Parser β}
    {before before' : State}
    (h : result first setting before = result first' setting before') :
    result (first >>= second) setting before = result (first' >>= second) setting before' := by
  cases hresult : result first setting before with
  | ok a after => rw [bind_of_ok hresult, bind_of_ok (h.symm.trans hresult)]
  | error halt after => rw [bind_of_error hresult, bind_of_error (h.symm.trans hresult)]

theorem length_skipped_of_infixLevel {tightness : Nat}
    (h : (nextOf before.rest).bind infixLevel = some tightness) :
    before.skipped.rest.length < before.rest.length := by
  cases hrest : before.rest with
  | nil => simp [hrest] at h
  | cons token rest => simp [hrest]

/-- Either no operator follows that is tight enough, or one does. -/
theorem looser_or_tight (level : Nat) (rest : List Token) :
    Looser level rest ∨
      ∃ tightness, (nextOf rest).bind infixLevel = some tightness ∧ level ≤ tightness := by
  by_cases h : Looser level rest
  · exact .inl h
  · simp only [Looser, Classical.not_forall, Nat.not_lt] at h
    obtain ⟨tightness, htight, hle⟩ := h
    exact .inr ⟨tightness, htight, hle⟩

section

variable (hending : setting.ending.category = .eof)

include hending

/-- An operator that is tight enough is taken, and its right operand is read. -/
theorem operators_take {level tightness : Nat} (left : Expr)
    (h : (nextOf before.rest).bind infixLevel = some tightness) (hle : level ≤ tightness) :
    result (Rule.read (.operators level left)) setting before =
      match result (Rule.read (.operation (tightness + 1))) setting before.skipped with
      | .ok right middle =>
          result (Rule.read (.operators level
            (joined middle.nextId left (before.rest.head?.getD setting.ending) right)))
            setting middle.renewed
      | .error halt middle => .error halt middle := by
  rw [Rule.read_eq hending]
  change result (operators Rule.read level left) setting before = _
  rw [operators, bind_of_ok result_peek, infixLevel_peek hending, h]
  simp only [Nat.not_lt_of_le hle, if_false]
  rw [bind_of_ok result_skip]
  cases hright : result (Rule.read (.operation (tightness + 1))) setting before.skipped with
  | error halt middle => exact bind_of_error hright
  | ok right middle =>
      refine (bind_of_ok hright).trans ((bind_of_ok result_freshId).trans ?_)
      unfold joined
      cases (before.rest.head?.getD setting.ending).category <;> rfl

/-- After operators of a level with their operands comes only what is looser. -/
theorem looser_of_operators {level : Nat} {left tree : Expr}
    (h : result (Rule.read (.operators level left)) setting before = .ok tree after) :
    Looser level after.rest := by
  induction hlength : before.rest.length using Nat.strongRecOn generalizing before left with
  | ind length ih =>
      obtain hlooser | ⟨tightness, htight, hle⟩ := looser_or_tight level before.rest
      · rw [operators_stop hending left hlooser] at h
        cases h
        exact hlooser
      · rw [operators_take hending left htight hle] at h
        cases hright : result (Rule.read (.operation (tightness + 1))) setting before.skipped with
        | error halt middle => simp [hright] at h
        | ok right middle =>
            simp only [hright] at h
            have hskipped := length_skipped_of_infixLevel htight
            have hmiddle := ((Rule.read_advances _).of_ok hright).length_le
            exact ih middle.rest.length (by omega) h rfl

theorem looser_of_operation {level : Nat} {tree : Expr}
    (h : result (Rule.read (.operation level)) setting before = .ok tree after) :
    Looser level after.rest := by
  rw [Rule.read_eq hending] at h
  obtain ⟨left, middle, -, hrest⟩ := bind_eq_ok.mp h
  exact looser_of_operators hending hrest

/-- The operators from a level on are those from the next level on, and then the others. -/
theorem operators_split (level : Nat) (left : Expr) (before : State) :
    result (Rule.read (.operators level left)) setting before =
      result (Rule.read (.operators (level + 1) left) >>= fun tighter : Expr =>
        Rule.read (.operators level tighter)) setting before := by
  induction hlength : before.rest.length using Nat.strongRecOn generalizing before left with
  | ind length ih =>
      obtain hlooser | ⟨tightness, htight, hle⟩ := looser_or_tight (level + 1) before.rest
      · rw [bind_of_ok (operators_stop hending left hlooser)]
      · have htake := operators_take hending left htight hle
        rw [operators_take hending left htight (Nat.le_of_succ_le hle)]
        cases hright : result (Rule.read (.operation (tightness + 1))) setting before.skipped with
        | error halt middle =>
            simp only [hright] at htake ⊢
            exact (bind_of_error htake).symm
        | ok right middle =>
            simp only [hright] at htake ⊢
            have hskipped := length_skipped_of_infixLevel htight
            have hmiddle := ((Rule.read_advances _).of_ok hright).length_le
            rw [ih middle.rest.length (by omega) _ middle.renewed rfl]
            exact bind_of_eq htake.symm

/-- An expression of a level is one of the next level, with the operators that are left. -/
theorem operation_split (level : Nat) (before : State) :
    result (Rule.read (.operation level)) setting before =
      result (Rule.read (.operation (level + 1)) >>= fun left : Expr =>
        Rule.read (.operators level left)) setting before := by
  rw [Rule.read_eq hending]
  cases hunary : result (Rule.read .unary) setting before with
  | error halt middle =>
      have htighter : result (Rule.read (.operation (level + 1))) setting before =
          .error halt middle := (Rule.read_eq hending _ _).trans (bind_of_error hunary)
      exact (bind_of_error hunary).trans (bind_of_error htighter).symm
  | ok left middle =>
      have htighter : result (Rule.read (.operation (level + 1))) setting before =
          result (Rule.read (.operators (level + 1) left)) setting middle :=
        (Rule.read_eq hending _ _).trans (bind_of_ok hunary)
      refine (bind_of_ok hunary).trans ((operators_split hending level left middle).trans ?_)
      exact bind_of_eq htighter.symm

/-- The operators that are left, if no tighter one is next, are those of the level itself. -/
theorem operators_eq_fold {level : Nat} {operators : List Category}
    {join : NodeId → Expr → Token → Expr → Expr} (hcovers : Covers level operators join)
    (left : Expr) (hlooser : Looser (level + 1) before.rest) {turns : Nat}
    (hturns : before.rest.length < turns) :
    result (Rule.read (.operators level left)) setting before =
      result (Cascade.fold operators join (Rule.read (.operation (level + 1))) turns left) setting
        before := by
  induction turns generalizing before left with
  | zero => exact absurd hturns (Nat.not_lt_zero _)
  | succ turns ih =>
      rw [Cascade.fold, bind_of_ok result_peek]
      obtain hdone | ⟨tightness, htight, hle⟩ := looser_or_tight level before.rest
      · rw [operators_stop hending left hdone, if_neg, result_pure]
        intro hmem
        rw [hcovers.mem_iff, infixLevel_peek hending] at hmem
        exact Nat.lt_irrefl level (hdone level hmem)
      · obtain rfl : tightness = level :=
          Nat.le_antisymm (Nat.le_of_lt_succ (hlooser tightness htight)) hle
        have hmem : (before.rest.head?.getD setting.ending).category ∈ operators := by
          rwa [hcovers.mem_iff, infixLevel_peek hending]
        rw [operators_take hending left htight hle, if_pos hmem, bind_of_ok result_skip]
        cases hright : result (Rule.read (.operation (tightness + 1))) setting before.skipped with
        | error halt middle => exact (bind_of_error hright).symm
        | ok right middle =>
            have hskipped := length_skipped_of_infixLevel htight
            have hmiddle := ((Rule.read_advances _).of_ok hright).length_le
            rw [bind_of_ok hright, bind_of_ok result_freshId, hcovers.join_eq _ hmem]
            have hlater : Looser (tightness + 1) middle.rest := looser_of_operation hending hright
            refine ih _ hlater ?_
            simp only [State.renewed_rest]
            omega

/-- Climbing from a level on is joining what climbing from the next level on gives. -/
theorem operation_eq_leftAssociative {level : Nat} {operators : List Category}
    {join : NodeId → Expr → Token → Expr → Expr} (hcovers : Covers level operators join)
    (before : State) :
    result (Rule.read (.operation level)) setting before =
      result (Cascade.leftAssociative operators join (Rule.read (.operation (level + 1)))) setting
        before := by
  rw [operation_split hending, Cascade.leftAssociative]
  cases hleft : result (Rule.read (.operation (level + 1))) setting before with
  | error halt middle => rw [bind_of_error hleft, bind_of_error hleft]
  | ok left middle =>
      rw [bind_of_ok hleft, bind_of_ok hleft, bind_of_ok result_get]
      exact operators_eq_fold hending hcovers left (looser_of_operation hending hleft)
        (Nat.lt_succ_self _)

/-- There are six levels. -/
theorem operation_eq_unary (before : State) :
    result (Rule.read (.operation 7)) setting before =
      result (Rule.read .unary) setting before := by
  rw [Rule.read_eq hending]
  cases hleft : result (Rule.read .unary) setting before with
  | error halt middle => exact bind_of_error hleft
  | ok left middle =>
      refine (bind_of_ok hleft).trans (operators_stop hending left ?_)
      intro tightness htight
      obtain ⟨category, -, hlevel⟩ := Option.bind_eq_some_iff.mp htight
      exact Nat.lt_succ_of_le (infixLevel_bounds hlevel).2

end

/-! ## The cascade with agreeing operands -/

/-- Parsers that agree wherever so many tokens are left at most. -/
def AgreeUpTo (first second : Parser Expr) (setting : Setting) (tokens : Nat) : Prop :=
  ∀ before : State, before.rest.length ≤ tokens → Agree first second setting before

section

variable {first second : Parser Expr} {tokens : Nat} {operators : List Category}
  {join : NodeId → Expr → Token → Expr → Expr}

theorem fold_agrees (hending : setting.ending.category = .eof)
    (hoperators : .eof ∉ operators) (hadvances : Advances first)
    (hagree : AgreeUpTo first second setting tokens) {turns : Nat} (left : Expr)
    (hturns : before.rest.length < turns) (hle : before.rest.length ≤ tokens) :
    Agree (Cascade.fold operators join first turns left)
      (Cascade.fold operators join second turns left) setting before := by
  induction turns generalizing before left with
  | zero => exact absurd hturns (Nat.not_lt_zero _)
  | succ turns ih =>
      refine Agree.bind_ok result_peek (Agree.ite (fun hmem => ?_) fun _ => Agree.pure _)
      have hskipped : before.skipped.rest.length < before.rest.length := by
        cases hrest : before.rest with
        | nil => exact absurd (by simpa [hrest, hending] using hmem) hoperators
        | cons token rest => simp [hrest]
      refine Agree.bind_ok result_skip ((hagree _ (by omega)).bind fun right middle hright => ?_)
      have hmiddle := (hadvances.of_ok hright).length_le
      refine Agree.bind_ok result_freshId (ih _ ?_ ?_)
      · simp only [State.renewed_rest]
        omega
      · simp only [State.renewed_rest]
        omega

theorem leftAssociative_agrees (hending : setting.ending.category = .eof)
    (hoperators : .eof ∉ operators) (hadvances : Advances first)
    (hagree : AgreeUpTo first second setting tokens) :
    AgreeUpTo (Cascade.leftAssociative operators join first)
      (Cascade.leftAssociative operators join second) setting tokens := by
  intro before hle
  refine (hagree before hle).bind fun left middle hleft => Agree.bind_ok result_get ?_
  have hmiddle := (hadvances.of_ok hleft).length_le
  exact fold_agrees hending hoperators hadvances hagree left (Nat.lt_succ_self _) (by omega)

end

/-! ## All layers at once -/

section

variable (hending : setting.ending.category = .eof)

include hending

/-- Climbing from a level on agrees with a layer whose operands agree with climbing from the next
level on. -/
theorem operation_agrees_leftAssociative {level tokens : Nat} {operators : List Category}
    {join : NodeId → Expr → Token → Expr → Expr} {operand : Parser Expr}
    (hcovers : Covers level operators join)
    (hoperand : AgreeUpTo (Rule.read (.operation (level + 1))) operand setting tokens) :
    AgreeUpTo (Rule.read (.operation level)) (Cascade.leftAssociative operators join operand)
      setting tokens := by
  intro before hle
  have hlayer : Agree (Cascade.leftAssociative operators join (Rule.read (.operation (level + 1))))
      (Cascade.leftAssociative operators join operand) setting before :=
    leftAssociative_agrees hending hcovers.eof_not_mem (Rule.read_advances _) hoperand before hle
  exact ⟨(operation_eq_leftAssociative hending hcovers before).trans hlayer.eq,
    fun after => Rule.read_fueled hending _ before after⟩

/-- Climbing from the loosest level on agrees with the six layers, one inside the other. -/
theorem operation_agrees_logicOr {tokens : Nat} {unary : Parser Expr}
    (hunary : AgreeUpTo (Rule.read .unary) unary setting tokens) :
    AgreeUpTo (Rule.read (.operation loosest)) (Cascade.logicOr unary) setting tokens := by
  have hinnermost : AgreeUpTo (Rule.read (.operation 7)) unary setting tokens :=
    fun before hle => ⟨(operation_eq_unary hending before).trans (hunary before hle).eq,
      fun after => Rule.read_fueled hending _ before after⟩
  have hfactor := operation_agrees_leftAssociative hending Covers.factor hinnermost
  have hterm := operation_agrees_leftAssociative hending Covers.term hfactor
  have hcomparison := operation_agrees_leftAssociative hending Covers.comparison hterm
  have hequality := operation_agrees_leftAssociative hending Covers.equality hcomparison
  have hlogicAnd := operation_agrees_leftAssociative hending Covers.logicAnd hequality
  exact operation_agrees_leftAssociative hending Covers.logicOr hlogicAnd

/-- Reading by a rule agrees with reading layer by layer, one reference after the other. -/
theorem read_agrees_cascade_run {fuel : Nat} (rule : Rule)
    (hneed : rule.need before.rest.length ≤ fuel) :
    Agree (Rule.read rule) (Cascade.run fuel rule) setting before := by
  induction fuel generalizing rule before with
  | zero => exact absurd hneed (by simp [Rule.need])
  | succ fuel ih =>
      refine ⟨?_, fun after => Rule.read_fueled hending rule before after⟩
      have hstep : Agree (rule.step Rule.read) (rule.step (Cascade.run fuel)) setting before :=
        Rule.step_agrees hending Rule.read_advances Rule.read_declaration_takes
          (fun next state h => ih next h) rule hneed
      have hother := (Rule.read_eq hending rule before).trans hstep.eq
      cases rule with
      | operation level =>
          rw [Cascade.run, Cascade.step]
          split
          · next hlevel =>
              subst hlevel
              have hunary : AgreeUpTo (Rule.read .unary) (Cascade.run fuel .unary) setting
                  before.rest.length := fun state hle => ih .unary
                (Nat.le_of_lt_succ (Nat.lt_of_lt_of_le
                  (Rule.need_of_rank hle (by simp [Rule.rank])) hneed))
              exact (operation_agrees_logicOr hending hunary before (Nat.le_refl _)).eq
          · exact hother
      | _ => exact hother

end

/-- Climbing by precedence gives the same outcome as reading layer by layer, from every cursor: the
same tree with the same identities, the same faults noted and the same tokens left, or the same
fault there. This holds with the same reader for the unary expressions, and where the expressions
inside others are read layer by layer as well; and reading never runs out of references. -/
theorem climbing_is_cascading (tokens : List Token) (before : State) :
    result (Rule.read (.operation loosest)) (.standard tokens) before =
        result (Cascade.logicOr (Rule.read .unary)) (.standard tokens) before ∧
      (∀ rule, result (Rule.read rule) (.standard tokens) before =
        result (Cascade.read rule) (.standard tokens) before) ∧
      ∀ after, result (Rule.read (.operation loosest)) (.standard tokens) before ≠
        .error .outOfFuel after := by
  have hending : (Setting.standard tokens).ending.category = .eof := endMarker_category tokens
  have hunary : AgreeUpTo (Rule.read .unary) (Rule.read .unary) (.standard tokens)
      before.rest.length := fun state _ => ⟨rfl, Rule.read_fueled hending _ state⟩
  refine ⟨(operation_agrees_logicOr hending hunary before (Nat.le_refl _)).eq, fun rule => ?_,
    Rule.read_fueled hending _ before⟩
  rw [Cascade.result_read]
  exact (read_agrees_cascade_run hending rule (Rule.need_le_fuelFor rule _)).eq

end Lox.Grammar
