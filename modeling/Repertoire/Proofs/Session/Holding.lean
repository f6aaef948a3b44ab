import Mathlib.Logic.Function.Basic
import Repertoire.Proofs.Session.Making

/-!
# Sessions over other ways to hold sets

A `Holding` is a way to hold sets, together with the operations that the steps of a session need.
`Step.on` says once what every step does to registers of any holding and when it fails; it looks
at the values only through `Accepted` and `mentioned`. If the operations of a holding keep in touch
with those on `CodeSet` (`Refines`), then so does every step (`Step.corresponds`) and with it every
session (`agree_after`).
-/

namespace Repertoire.Session

structure Holding (σ : Type) where
  ofPoints : List Int → σ
  copy : σ → σ
  add : σ → List Int → σ
  remove : σ → List Int → σ
  combine : Algebra → σ → σ → σ
  IsEmpty : σ → Prop

/-- What the registers hold; a name without a register holds nothing. -/
abbrev Held (σ : Type) := String → Option σ

variable {σ : Type}

/-! ## What a step does -/

def Relation.IsDefined : Relation → Prop
  | .lt => False
  | _ => True

/-- Does the operation take a right side that is not a set? Only those that go over the members of
the left side do, and only if there is none. -/
def Algebra.TakesOther (leftEmpty : Prop) : Algebra → Form → Prop
  | .inter, .name | .diff, .name => leftEmpty
  | _, _ => False

def Relation.TakesOther (leftEmpty : Prop) : Relation → Prop
  | .eq | .ne => True
  | .subset => leftEmpty
  | _ => False

open Classical in
/-- What is held after a step, unless the step fails. -/
noncomputable def Step.on (H : Holding σ) (held : Held σ) : Step → Option (Held σ)
  | .make maker target source => do
    let v ← source.settle?
    if Accepted maker v then
      return Function.update held target (some (H.ofPoints (mentioned maker v)))
    else none
  | .clear target => return Function.update held target (some (H.ofPoints []))
  | .copy target source => do
    let a ← held source
    return Function.update held target (some (H.copy a))
  | .add name points => do
    let a ← held name
    return Function.update held name (some (H.add a points))
  | .remove name points => do
    let a ← held name
    return Function.update held name (some (H.remove a points))
  | .combine operation _ target left (.register right) => do
    let a ← held left
    let b ← held right
    return Function.update held target (some (H.combine operation a b))
  | .combine operation form target left (.other value) => do
    let a ← held left
    let _ ← value.settle?
    if operation.TakesOther (H.IsEmpty a) form then
      return Function.update held target (some (H.ofPoints []))
    else none
  | .contains name _ => do
    let _ ← held name
    return held
  | .hash _ => none
  | .compare relation left (.register right) => do
    let _ ← held left
    let _ ← held right
    if relation.IsDefined then return held else none
  | .compare relation left (.other value) => do
    let a ← held left
    let _ ← value.settle?
    if relation.TakesOther (H.IsEmpty a) then return held else none
  | .writeOut _ name => do
    let _ ← held name
    return held

/-- What is held after the steps of a session; a step that fails changes nothing. -/
noncomputable def Holding.after (H : Holding σ) (held : Held σ) (steps : List Step) : Held σ :=
  steps.foldl (fun held step => (step.on H held).getD held) held

def Step.after (registers : Registers) (step : Step) : Registers :=
  match step.apply registers with
  | .ok (_, registers') => registers'
  | .error _ => registers

def after (registers : Registers) (steps : List Step) : Registers :=
  steps.foldl Step.after registers

/-- Each step of a session is answered as the registers stand that the steps before it have left. -/
theorem run_append (registers : Registers) (steps steps' : List Step) :
    run registers (steps ++ steps') = run registers steps ++ run (after registers steps) steps' := by
  induction steps generalizing registers with
  | nil => rfl
  | cons step steps ih =>
      have hafter : after registers (step :: steps) = after (step.after registers) steps := rfl
      rw [hafter, List.cons_append, run, run, Step.after]
      cases step.apply registers with
      | ok outcome => exact congrArg _ (ih outcome.2)
      | error fault => exact congrArg _ (ih registers)

/-! ## Agreement -/

/-- The same names are bound on both sides, to sets that are related. -/
def Agree (R : CodeSet → σ → Prop) (registers : Registers) (held : Held σ) : Prop :=
  ∀ name, Option.Rel R (registers.lookup name) (held name)

/-- The operations of a holding keep in touch with those on `CodeSet`. -/
structure Refines (H : Holding σ) (R : CodeSet → σ → Prop) : Prop where
  ofPoints : ∀ points, R (CodeSet.ofList points) (H.ofPoints points)
  copy : ∀ {s a}, R s a → R s.copy (H.copy a)
  add : ∀ {s a}, R s a → ∀ points, R (s.add points) (H.add a points)
  remove : ∀ {s a}, R s a → ∀ points, R (s.remove points) (H.remove a points)
  combine : ∀ {s t a b} (operation), R s a → R t b →
    R (Session.combine operation s t) (H.combine operation a b)
  isEmpty : ∀ {s a}, R s a → (s.isEmpty = true ↔ H.IsEmpty a)

/-- A step has come out alike on both sides. -/
inductive Corresponds (R : CodeSet → σ → Prop) :
    Except Fault (Reply × Registers) → Option (Held σ) → Prop
  | done {reply : Reply} {registers : Registers} {held : Held σ} : Agree R registers held →
      Corresponds R (.ok (reply, registers)) (some held)
  | failed {fault : Fault} : Corresponds R (.error fault) none

section

variable {H : Holding σ} {R : CodeSet → σ → Prop} {registers : Registers} {held : Held σ}

theorem Agree.put (h : Agree R registers held) (name : String) {s : CodeSet} {a : σ}
    (hsa : R s a) : Corresponds R (.ok (put registers name s))
      (some (Function.update held name (some a))) := by
  refine .done fun other => ?_
  rw [List.lookup_cons]
  by_cases hname : other = name
  · subst hname
    rw [Function.update_self, beq_self_eq_true]
    exact .some hsa
  · rw [Function.update_of_ne hname, beq_false_of_ne hname]
    exact h other

theorem Agree.bind_get (h : Agree R registers held) (name : String)
    {f : CodeSet → Except Fault (Reply × Registers)} {g : σ → Option (Held σ)}
    (hfg : ∀ s a, R s a → Corresponds R (f s) (g a)) :
    Corresponds R (get registers name >>= f) (held name >>= g) := by
  have hname := h name
  unfold get
  generalize registers.lookup name = looked at hname ⊢
  generalize held name = found at hname ⊢
  cases hname with
  | some hsa => exact hfg _ _ hsa
  | none => exact .failed

theorem corresponds_bind_settled (value : Value)
    {f : Value → Except Fault (Reply × Registers)} {g : Value → Option (Held σ)}
    (hfg : ∀ v, Corresponds R (f v) (g v)) :
    Corresponds R (settled value >>= f) (value.settle? >>= g) := by
  unfold settled
  cases value.settle? with
  | none => exact .failed
  | some v => exact hfg v

/-- A step that goes on only under a condition corresponds if both sides have the same one. -/
theorem Attempt.bind_ite {α : Type} {p : Prop} {_ : Decidable p} {tried : Except Fault α}
    {f : α → Except Fault (Reply × Registers)} {next : Option (Held σ)}
    (h : Attempt p (fun a => Corresponds R (f a) next) tried) :
    Corresponds R (tried >>= f) (if p then next else none) := by
  cases h with
  | success hp hfa =>
      rw [if_pos hp]
      exact hfa
  | failure hp =>
      rw [if_neg hp]
      exact .failed

/-! ## One step -/

theorem combineOther_attempt (s : CodeSet) (value : Value) (operation : Algebra) (form : Form) :
    Attempt (operation.TakesOther (s.isEmpty = true) form) (· = CodeSet.empty)
      (combineOther s value operation form) := by
  cases form with
  | sign => cases operation <;> exact .failure id
  | name =>
      cases operation with
      | union => exact .failure id
      | _ =>
          rw [combineOther]
          cases s.isEmpty with
          | true => exact .success rfl rfl
          | false => exact .failure Bool.false_ne_true

theorem relatedOther_attempt (s : CodeSet) (value : Value) (relation : Relation) :
    Attempt (relation.TakesOther (s.isEmpty = true)) (fun _ => True)
      (relatedOther s value relation) := by
  cases relation with
  | eq => exact .success trivial trivial
  | ne => exact .success trivial trivial
  | subset =>
      rw [relatedOther]
      cases s.isEmpty with
      | true => exact .success rfl trivial
      | false => exact .failure Bool.false_ne_true
  | _ => exact .failure id

theorem related_attempt (s t : CodeSet) (relation : Relation) :
    Attempt relation.IsDefined (fun _ => True) (related relation s t) := by
  cases relation with
  | lt => exact .failure id
  | _ => exact .success trivial trivial

theorem Step.corresponds (hR : Refines H R) (h : Agree R registers held) (step : Step) :
    Corresponds R (step.apply registers) (step.on H held) := by
  cases step with
  | make maker target source =>
      refine corresponds_bind_settled source fun v => Attempt.bind_ite ?_
      refine (make_attempt maker v).imp ?_
      rintro s rfl
      exact h.put target (hR.ofPoints _)
  | clear target =>
      rw [Step.apply, CodeSet.empty_eq_ofList]
      exact h.put target (hR.ofPoints [])
  | copy target source =>
      exact h.bind_get source fun s a hsa => h.put target (hR.copy hsa)
  | add name points =>
      exact h.bind_get name fun s a hsa => h.put name (hR.add hsa points)
  | remove name points =>
      exact h.bind_get name fun s a hsa => h.put name (hR.remove hsa points)
  | combine operation form target left right =>
      cases right with
      | register right =>
          exact h.bind_get left fun s a hsa => h.bind_get right fun t b htb =>
            h.put target (hR.combine operation hsa htb)
      | other value =>
          refine h.bind_get left fun s a hsa => corresponds_bind_settled value fun v => ?_
          refine Attempt.bind_ite ?_
          -- of the left side both ask no more than whether it is empty
          rw [← hR.isEmpty hsa]
          refine (combineOther_attempt s v operation form).imp ?_
          rintro t rfl
          rw [CodeSet.empty_eq_ofList]
          exact h.put target (hR.ofPoints [])
  | contains name point => exact h.bind_get name fun s a hsa => .done h
  | hash name =>
      rw [Step.apply, Step.on]
      cases get registers name with
      | ok s => exact .failed
      | error fault => exact .failed
  | compare relation left right =>
      cases right with
      | register right =>
          refine h.bind_get left fun s a hsa => h.bind_get right fun t b htb => ?_
          exact Attempt.bind_ite ((related_attempt s t relation).imp fun _ _ => .done h)
      | other value =>
          refine h.bind_get left fun s a hsa => corresponds_bind_settled value fun v => ?_
          refine Attempt.bind_ite ?_
          rw [← hR.isEmpty hsa]
          exact (relatedOther_attempt s v relation).imp fun _ _ => .done h
  | writeOut what name => exact h.bind_get name fun s a hsa => .done h

/-! ## Whole sessions -/

theorem Step.agree_after (hR : Refines H R) (h : Agree R registers held) (step : Step) :
    Agree R (step.after registers) ((step.on H held).getD held) := by
  have hstep := step.corresponds hR h
  unfold Step.after
  generalize step.apply registers = outcome at hstep ⊢
  generalize step.on H held = next at hstep ⊢
  cases hstep with
  | done hagree => exact hagree
  | failed => exact h

theorem Step.fails_iff (hR : Refines H R) (h : Agree R registers held) (step : Step) :
    (∃ fault, step.apply registers = .error fault) ↔ step.on H held = none := by
  have hstep := step.corresponds hR h
  generalize step.apply registers = outcome at hstep ⊢
  generalize step.on H held = next at hstep ⊢
  cases hstep with
  | done hagree =>
      constructor
      · rintro ⟨fault, hfault⟩
        cases hfault
      · intro hnext
        cases hnext
  | failed => exact ⟨fun _ => rfl, fun _ => ⟨_, rfl⟩⟩

/-- Registers that agree before a session agree after it, however long it is. -/
theorem agree_after (hR : Refines H R) (h : Agree R registers held) (steps : List Step) :
    Agree R (after registers steps) (H.after held steps) := by
  induction steps generalizing registers held with
  | nil => exact h
  | cons step steps ih => exact ih (step.agree_after hR h)

end

end Repertoire.Session
