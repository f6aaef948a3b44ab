import Repertoire.Proofs.Ledger
import Repertoire.Proofs.Session.Holding

/-!
# Sessions on finite sets

A session on registers of `CodeSet`s is watched from two sides: as a session on finite sets of
integers, and as a session on ledgers, which change flag by flag and count as they go. Both
agree with the registers after every step (`run_simulates_sets`).
-/

namespace Repertoire.Session

/-- Finite sets of integers, with their own algebra. -/
def finiteSets : Holding (Finset Int) where
  ofPoints := List.toFinset
  copy a := a
  add a points := a ∪ points.toFinset
  remove a points := a \ points.toFinset
  combine
    | .union, a, b => a ∪ b
    | .inter, a, b => a ∩ b
    | .diff, a, b => a \ b
  IsEmpty a := a = ∅

/-- Sets that are kept integer by integer. -/
def ledgers : Holding Ledger where
  ofPoints := Ledger.ofPoints
  copy := Ledger.copy
  add := Ledger.add
  remove := Ledger.remove
  combine := Ledger.combine
  IsEmpty l := l.toList = []

theorem refines_finiteSets :
    Refines finiteSets fun s members => ∀ x, s.contains x = true ↔ x ∈ members where
  ofPoints points x := CodeSet.contains_ofList.trans List.mem_toFinset.symm
  copy h := h
  add {s a} h points x := by
    show _ ↔ x ∈ a ∪ points.toFinset
    rw [CodeSet.contains_add, Finset.mem_union, List.mem_toFinset, h]
  remove {s a} h points x := by
    show _ ↔ x ∈ a \ points.toFinset
    rw [CodeSet.contains_remove, Finset.mem_sdiff, List.mem_toFinset, h]
  combine {s t a b} operation hs ht x := by
    cases operation with
    | union =>
        show (s.union t).contains x = true ↔ x ∈ a ∪ b
        rw [CodeSet.contains_union, Bool.or_eq_true, Finset.mem_union, hs, ht]
    | inter =>
        show (s.inter t).contains x = true ↔ x ∈ a ∩ b
        rw [CodeSet.contains_inter, Bool.and_eq_true, Finset.mem_inter, hs, ht]
    | diff =>
        show (s.diff t).contains x = true ↔ x ∈ a \ b
        rw [CodeSet.contains_diff, Bool.and_eq_true, Finset.mem_sdiff, hs, ← ht,
          Bool.not_eq_true', Bool.not_eq_true]
  isEmpty {s a} h := by
    show _ ↔ a = ∅
    rw [CodeSet.isEmpty_iff, List.eq_nil_iff_forall_not_mem, Finset.eq_empty_iff_forall_notMem]
    simp only [CodeSet.mem_toList, h]

theorem refines_ledgers : Refines ledgers Keeps where
  ofPoints := Keeps.ofPoints
  copy := Keeps.copy
  add := Keeps.add
  remove := Keeps.remove
  combine := Keeps.combine
  isEmpty := Keeps.isEmpty

theorem agree_nil {σ : Type} (R : CodeSet → σ → Prop) : Agree R [] fun _ => none :=
  fun _ => .none

/-- **A session is a session on finite sets.** After any steps, every register shows the finite set
that the same steps have left under its name, and what is recorded of it is what the ledger under
its name has entered and counted. The next step fails exactly if it fails on finite sets, and then
all registers stay as they were; it is answered as the registers stand. -/
theorem run_simulates_sets (steps : List Step) :
    (∀ name, Option.Rel CodeSet.Shows ((after [] steps).lookup name)
        (finiteSets.after (fun _ => none) steps name))
      ∧ (∀ name, Option.Rel Records ((after [] steps).lookup name)
          (ledgers.after (fun _ => none) steps name))
      ∧ ∀ step : Step,
          ((∃ fault, step.apply (after [] steps) = .error fault) ↔
            step.on finiteSets (finiteSets.after (fun _ => none) steps) = none)
          ∧ (∀ fault, step.apply (after [] steps) = .error fault →
              after [] (steps ++ [step]) = after [] steps)
          ∧ run [] (steps ++ [step])
              = run [] steps ++ [(step.apply (after [] steps)).map Prod.fst] := by
  have hsets := agree_after refines_finiteSets (agree_nil _) steps
  have hledgers := agree_after refines_ledgers (agree_nil _) steps
  refine ⟨fun name => rel_mono (fun s a hsa => CodeSet.shows_of_contains hsa) (hsets name),
    fun name => rel_mono (fun s l hsl => hsl.records) (hledgers name),
    fun step => ⟨step.fails_iff refines_finiteSets hsets, fun fault hfault => ?_, ?_⟩⟩
  · rw [after, List.foldl_append]
    show Step.after (after [] steps) step = after [] steps
    rw [Step.after, hfault]
  · rw [run_append, run]
    cases step.apply (after [] steps) with
    | ok outcome => rfl
    | error fault => rfl

end Repertoire.Session
