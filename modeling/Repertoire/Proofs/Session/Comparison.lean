import Repertoire.Proofs.Session.Simulation

/-!
# Comparing sets

A ledger is compared by its tracked count and by one inclusion only: it equals another if as many
integers are counted and every member is a member of the other. That this is equality of the members
rests on the count being right, by a counting argument (`equals_iff_size`). Sets with the same
members then cannot be told apart by anything that is written out of them but the record, which is
where their histories are kept.
-/

namespace Repertoire

namespace CodeSet

variable {s t : CodeSet}

theorem subset_iff : s.subset t = true ↔ ∀ x, s.contains x = true → t.contains x = true :=
  Extent.subset_iff s.members t.members

theorem equals_iff : s.equals t = true ↔ ∀ x, s.contains x = t.contains x := by
  constructor
  · intro h x
    rw [contains, contains, eq_of_beq (a := s.members) (b := t.members) h]
  · exact equals_of_contains

/-- A set within another that is no larger is all of it. -/
theorem equals_iff_size : s.equals t = true ↔ s.size = t.size ∧ s.subset t = true := by
  have hs := s.shows_toFinset
  have ht := t.shows_toFinset
  rw [equals_iff, subset_iff]
  constructor
  · intro h
    have hlists : s.toList.toFinset = t.toList.toFinset := by
      ext x
      rw [← hs.contains, ← ht.contains, h x]
    exact ⟨by rw [hs.size, ht.size, hlists], fun x hx => (h x).symm.trans hx⟩
  · rintro ⟨hsize, hsubset⟩ x
    have hincluded : s.toList.toFinset ⊆ t.toList.toFinset := fun y hy =>
      (ht.contains y).1 (hsubset y ((hs.contains y).2 hy))
    have hcard : t.toList.toFinset.card ≤ s.toList.toFinset.card := by
      rw [← hs.size, ← ht.size, hsize]
    rw [Bool.eq_iff_iff, hs.contains, ht.contains,
      Finset.eq_of_subset_of_card_le hincluded hcard]

/-- A copy has the same members, and nothing but the record shows more than these. -/
theorem export_copy {what : Export} (hwhat : what ≠ .record) :
    s.copy.export what = s.export what := by
  cases what with
  | record => exact absurd rfl hwhat
  | _ => rfl

theorem export_of_equals (h : s.equals t = true) {what : Export} (hwhat : what ≠ .record) :
    s.export what = t.export what := by
  have hcopy : s.copy = t.copy := congrArg ofExtent (eq_of_beq h)
  rw [← export_copy hwhat, hcopy, export_copy hwhat]

end CodeSet

/-! ## Ledgers -/

namespace Ledger

/-- Is every member a member of the other ledger? -/
def subset (l m : Ledger) : Bool := l.toList.all fun x => m.contains x

/-- Are as many integers counted, and is every member a member of the other ledger? -/
def equals (l m : Ledger) : Bool := l.count == m.count && l.subset m

end Ledger

namespace Keeps

variable {s t : CodeSet} {l m : Ledger}

theorem subset (hl : Keeps s l) (hm : Keeps t m) : l.subset m = s.subset t := by
  rw [Bool.eq_iff_iff, CodeSet.subset_iff, Ledger.subset, List.all_eq_true]
  simp only [hl.mem_toList, hm.contains]

theorem equals (hl : Keeps s l) (hm : Keeps t m) : l.equals m = s.equals t := by
  rw [Bool.eq_iff_iff, CodeSet.equals_iff_size, Ledger.equals, Bool.and_eq_true, hl.subset hm,
    hl.count, hm.count, beq_iff_eq, Int.natCast_inj]

end Keeps

namespace Session

theorem bind_get {registers : Registers} {name : String} {s : CodeSet}
    (h : registers.lookup name = some s) {α : Type} (f : CodeSet → Except Fault α) :
    get registers name >>= f = f s := by
  rw [get, h]
  rfl

/-- Where a set is held, the ledger under its name keeps it. -/
theorem Agree.exists_of_lookup {σ : Type} {R : CodeSet → σ → Prop} {registers : Registers}
    {held : Held σ} (h : Agree R registers held) {name : String} {s : CodeSet}
    (hs : registers.lookup name = some s) : ∃ a, held name = some a ∧ R s a := by
  have hname := h name
  rw [hs] at hname
  generalize held name = found at hname ⊢
  cases hname with
  | some hsa => exact ⟨_, rfl, hsa⟩

theorem compare_apply {registers : Registers} {a b : String} {s t : CodeSet}
    (hs : registers.lookup a = some s) (ht : registers.lookup b = some t) (relation : Relation) :
    (Step.compare relation a (.register b)).apply registers
      = (related relation s t).map fun answer => (.truth answer, registers) := by
  rw [Step.apply, bind_get hs]
  refine (bind_get ht _).trans ?_
  cases related relation s t <;> rfl

theorem writeOut_apply {registers : Registers} {name : String} {s : CodeSet}
    (hs : registers.lookup name = some s) (what : Export) :
    (Step.writeOut what name).apply registers = .ok (.exported (s.export what), registers) := by
  rw [Step.apply, bind_get hs]
  rfl

/-- **Comparing goes by the members alone.** Take any two registers after any steps, whatever their
sets have been through. By name and by sign, the two are answered to be equal exactly if they have
the same members, and to be different otherwise; the ledgers under their names give the same answer
by their counts and one inclusion. And if the sets are equal, then whatever is written out of the
one is written out of the other, except for the record. -/
theorem compare_is_extensional (steps : List Step) (a b : String) {s t : CodeSet}
    (hs : (after [] steps).lookup a = some s) (ht : (after [] steps).lookup b = some t) :
    ∃ same : Bool, (same = true ↔ ∀ x, s.contains x = t.contains x)
      ∧ (∀ relation, relation = .equals ∨ relation = .eq →
          (Step.compare relation a (.register b)).apply (after [] steps)
            = .ok (.truth same, after [] steps))
      ∧ (Step.compare .ne a (.register b)).apply (after [] steps)
          = .ok (.truth !same, after [] steps)
      ∧ (∃ l m, ledgers.after (fun _ => none) steps a = some l
          ∧ ledgers.after (fun _ => none) steps b = some m ∧ l.equals m = same)
      ∧ (same = true → ∀ what, what ≠ .record →
          (Step.writeOut what a).apply (after [] steps)
            = (Step.writeOut what b).apply (after [] steps)) := by
  have hledgers := agree_after refines_ledgers (agree_nil _) steps
  obtain ⟨l, hl, hsl⟩ := hledgers.exists_of_lookup hs
  obtain ⟨m, hm, htm⟩ := hledgers.exists_of_lookup ht
  refine ⟨s.equals t, CodeSet.equals_iff, ?_, ?_, ⟨l, m, hl, hm, hsl.equals htm⟩, ?_⟩
  · rintro relation (rfl | rfl) <;> exact compare_apply hs ht _
  · exact compare_apply hs ht .ne
  · intro hequals what hwhat
    rw [writeOut_apply hs, writeOut_apply ht, CodeSet.export_of_equals hequals hwhat]

/-- Two ways to the members `5` and `6`: from a range list, with one member withdrawn for good and
one for a while, and from a unicode-range text, with the others withdrawn. -/
def twoHistories : List Step :=
  [.make .permissive "a" (.list [.int 7, .int 5, .int 6]), .remove "a" [6, 7, 6], .add "a" [6, 6],
    .make .unicodeRange "b" (.text (Text.ofString "U+1-6")), .remove "b" [1, 2, 3, 4]]

/-- The two are answered to be equal, and written out alike, although their records differ. -/
theorem compare_is_extensional_twoHistories :
    (after [] twoHistories).lookup "a"
        = some (((CodeSet.ofList [7, 5, 6]).remove [6, 7, 6]).add [6, 6])
      ∧ (after [] twoHistories).lookup "b"
        = some ((CodeSet.ofList [1, 2, 3, 4, 5, 6]).remove [1, 2, 3, 4])
      ∧ (Step.compare .equals "a" (.register "b")).apply (after [] twoHistories)
        = .ok (.truth true, after [] twoHistories)
      ∧ (Step.compare .ne "a" (.register "b")).apply (after [] twoHistories)
        = .ok (.truth false, after [] twoHistories)
      ∧ (∀ what, what ≠ .record →
          (Step.writeOut what "a").apply (after [] twoHistories)
            = (Step.writeOut what "b").apply (after [] twoHistories))
      ∧ (Step.writeOut .record "a").apply (after [] twoHistories)
        ≠ (Step.writeOut .record "b").apply (after [] twoHistories) := by
  have ha : (after [] twoHistories).lookup "a"
      = some (((CodeSet.ofList [7, 5, 6]).remove [6, 7, 6]).add [6, 6]) := by decide +kernel
  have hb : (after [] twoHistories).lookup "b"
      = some ((CodeSet.ofList [1, 2, 3, 4, 5, 6]).remove [1, 2, 3, 4]) := by decide +kernel
  have hmembers := CodeSet.equals_iff.1
    (show (((CodeSet.ofList [7, 5, 6]).remove [6, 7, 6]).add [6, 6]).equals
      ((CodeSet.ofList [1, 2, 3, 4, 5, 6]).remove [1, 2, 3, 4]) = true by decide +kernel)
  obtain ⟨same, hsame, hequal, hdifferent, -, hexports⟩ :=
    compare_is_extensional twoHistories "a" "b" ha hb
  obtain rfl := hsame.2 hmembers
  refine ⟨ha, hb, hequal .equals (Or.inl rfl), hdifferent, hexports rfl, ?_⟩
  rw [writeOut_apply ha, writeOut_apply hb]
  intro hreplies
  have hrecords := Exported.flags.inj (Reply.exported.inj (Prod.mk.inj (Except.ok.inj hreplies)).1)
  -- `7` has been withdrawn from the one and was never in the other
  have hseven : (7, false) ∈ (((CodeSet.ofList [7, 5, 6]).remove [6, 7, 6]).add [6, 6]).record :=
    CodeSet.mem_record.2 (by decide +kernel)
  rw [hrecords, CodeSet.mem_record] at hseven
  revert hseven
  decide +kernel

end Session

end Repertoire
