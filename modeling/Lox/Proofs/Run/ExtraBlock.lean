import Lox.Proofs.Run.Boxed
import Lox.Proofs.Run.Pieces
import Lox.Proofs.Run.Renaming

/-!
# Extra blocks make no difference

A program in which a statement is put into a block of its own is resolved as the program is, and
does the same on every new machine.
-/

namespace Lox.Run

open Scope (Distances)

variable {α : Type} {program program' : List Stmt} {distances distances' : Distances}

/-! ## Ends of runs -/

theorem fueled_iff_ending {outcome : Outcome α} :
    Fueled outcome ↔ Outcome.ending outcome ≠ .outOfFuel := by
  cases outcome with
  | ok a after => simp [Fueled, Outcome.ending]
  | error interrupt after => cases interrupt <;> simp [Fueled, Outcome.ending]

/-- Programs that end alike are seen to, unless one of them lacks fuel. -/
theorem EndAlike.seen {lacking : Side} {expect : Flow → Flow → Machine → Machine → Prop}
    {outcome outcome' : Outcome Flow} (h : EndAlike lacking expect outcome outcome')
    (hexpect : ∀ flow flow' after after', expect flow flow' after after' →
      after'.sink = after.sink ∧ after'.output = after.output)
    (hfirst : lacking = .first → Fueled outcome) (hsecond : lacking = .second → Fueled outcome') :
    (Outcome.machine (flushed outcome')).output = (Outcome.machine (flushed outcome)).output ∧
      Outcome.ending (flushed outcome') = Outcome.ending (flushed outcome) := by
  cases h with
  | give hgiven =>
      obtain ⟨hsink, houtput⟩ := hexpect _ _ _ _ hgiven
      exact flush_alike hsink houtput
  | halt interrupt houtput =>
      refine ⟨houtput, ?_⟩
      cases interrupt <;> rfl
  | lacks hlacking => exact absurd rfl (hfirst hlacking _)
  | lacks' hlacking => exact absurd rfl (hsecond hlacking _)

/-- On a new machine the run of the program comes to its end, with this output and in this way. -/
def Ends (program : List Stmt) (distances : Distances) (clock : Nat → Float) (sink : Sink)
    (output : Output) (ending : Ending) : Prop :=
  ∃ fuel,
    let outcome := interpret fuel program distances (.start clock sink)
    Fueled outcome ∧ (Outcome.machine outcome).output = output ∧ Outcome.ending outcome = ending

/-! ## Programs -/

/-- New machines that know the distances of the programs. -/
theorem Machine.boxed_start (distances distances' : Distances) (lacking : Side)
    (clock : Nat → Float) (sink : Sink) :
    ((Machine.start clock sink).learn distances).Boxed ⟨distances, distances', lacking⟩ id []
      ((Machine.start clock sink).learn distances') := by
  refine ⟨Heap.boxed_fresh _, ⟨rfl, rfl⟩, rfl, fun node => ?_, fun node => ?_, rfl, rfl, rfl, rfl⟩
  · rw [getElem?_learn]
    exact Option.or_none ..
  · rw [getElem?_learn]
    exact Option.or_none ..

/-- Runs of the two programs are seen to end alike, unless one of them lacks fuel. -/
theorem interpret_alike (h : Stmt.BoxedAll (.widened distances distances') [] program program')
    (clock : Nat → Float) (sink : Sink) (lacking : Side) {fuel fuel' : Nat}
    (hruns : RunsAligned ⟨distances, distances', lacking⟩ (Task.run fuel) (Task.run fuel'))
    (hfirst : lacking = .first → Fueled (interpret fuel program distances (.start clock sink)))
    (hsecond : lacking = .second →
      Fueled (interpret fuel' program' distances' (.start clock sink))) :
    (Outcome.machine (interpret fuel' program' distances' (.start clock sink))).output =
        (Outcome.machine (interpret fuel program distances (.start clock sink))).output ∧
      Outcome.ending (interpret fuel' program' distances' (.start clock sink)) =
        Outcome.ending (interpret fuel program distances (.start clock sink)) := by
  rw [interpret_eq_flushed, fueled_flushed] at hfirst hsecond
  rw [interpret_eq_flushed, interpret_eq_flushed]
  have haligned := hruns _ _ _ _ _ _ (.executeAll h Layers.shared_nil)
    (Machine.boxed_start distances distances' lacking clock sink)
  refine EndAlike.seen haligned ?_ hfirst hsecond
  rintro _ _ _ _ ⟨_, hadvance, -⟩
  exact ⟨hadvance.boxed.sink, hadvance.boxed.output⟩

/-- An extra block is invisible. If a statement that is no declaration is put into a block of its
own, anywhere in a program without static errors, the program still has none, and for every clock
and every sink its run ends exactly if the run of the program does, with the same output and alike,
be it with an error or without. As a sink may refuse any byte, this also says what a run that never
ends writes. -/
theorem extra_block_is_invisible {source : String} {nextId last : NodeId}
    (hchecked : Checked source nextId program distances last)
    (hblock : Stmt.GainsBlockAll program program') :
    ∃ distances', Scope.resolve program' = (distances', []) ∧
      ∀ clock sink output ending, Ends program' distances' clock sink output ending ↔
        Ends program distances clock sink output ending := by
  obtain ⟨distances', hresolve, hboxed⟩ := resolve_boxed hchecked.resolved hchecked.formed
    hchecked.useNodes_fresh.nodup (hblock.boxedAll [])
  refine ⟨distances', hresolve, fun clock sink output ending => ⟨?_, ?_⟩⟩
  · rintro ⟨fuel', hfueled, rfl, rfl⟩
    obtain ⟨houtput, hending⟩ := interpret_alike hboxed clock sink .second
      (runsAligned_second distances distances' (Nat.le_refl fuel')) nofun fun _ => hfueled
    refine ⟨fuel', ?_, houtput.symm, hending.symm⟩
    rwa [fueled_iff_ending, ← hending, ← fueled_iff_ending]
  · rintro ⟨fuel, hfueled, rfl, rfl⟩
    obtain ⟨houtput, hending⟩ := interpret_alike hboxed clock sink .first
      (runsAligned_first distances distances' (Nat.le_refl (3 * fuel))) (fun _ => hfueled) nofun
    refine ⟨3 * fuel, ?_, houtput, hending⟩
    rwa [fueled_iff_ending, hending, ← fueled_iff_ending]

/-- The block that declares and uses a variable, with the use in a block of its own. -/
def doubleBlock : List Stmt :=
  [.block [.var ⟨.identifier, "a", 1⟩ none,
    .block [.expression (.var 0 ⟨.identifier, "a", 1⟩)]]]

theorem extra_block_is_invisible_block :
    Checked "\x7bvar a; a;\x7d" 0 [.block blockBody] (Scope.resolve [.block blockBody]).1 1 ∧
      Stmt.GainsBlockAll [.block blockBody] doubleBlock ∧
      ∃ distances', Scope.resolve doubleBlock = (distances', []) ∧
        ∀ clock sink output ending, Ends doubleBlock distances' clock sink output ending ↔
          Ends [.block blockBody] (Scope.resolve [.block blockBody]).1 clock sink output
            ending := by
  have hchecked : Checked "\x7bvar a; a;\x7d" 0 [.block blockBody]
      (Scope.resolve [.block blockBody]).1 1 := ⟨by rfl, by rfl, by rfl⟩
  have hblock : Stmt.GainsBlockAll [.block blockBody] doubleBlock :=
    .head [] (.block (.tail _ (.head [] (.here rfl))))
  exact ⟨hchecked, hblock, extra_block_is_invisible hchecked hblock⟩

end Lox.Run
