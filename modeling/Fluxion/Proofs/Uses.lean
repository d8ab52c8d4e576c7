import Fluxion.Journal.Sinks
import Fluxion.Proofs.Calls
import Fluxion.Proofs.Evaluation.Steps
import Fluxion.Proofs.Forest.Consistent
import Fluxion.Proofs.Operations
import Fluxion.Proofs.Registry
import Fluxion.Proofs.Simplification.Value

/-!
# Forests in any use

A forest may be used in any way: call by call, by whole operations, and with any arguments. Nodes
may be shared and slots out of date, and a node may be put below itself. Such a forest is still
consistent, so no use of it fails for a parent without slots or for an operator with a wrong
number of operands.
-/

namespace Fluxion

inductive Use where
  | call (c : Call)
  | retire (i : Nat)
  | operation (op : Operation)

namespace Use

/-- The forest that is left, whether the use succeeds or fails. -/
def after {σ : Type} [Elementary] (f : Forest) (sink : Sink σ) (notes : σ) : Use → Forest
  | call c => c.after f
  | retire i => (Edit.retire i).after f
  | operation op => f.afterOperation sink notes op

/-- A live expression that is compacted must not lead back to itself. A sequence of derivatives
is taken one by one, since it compacts in between. -/
def Allowed (f : Forest) : Use → Prop
  | call .compact | operation .compact => f.Acyclic
  | operation (.differentiateTimes _ _) => False
  | _ => True

end Use

variable {fault : Fault → Prop} {inv : Forest → Prop} {f : Forest}

theorem Ensures.after {α : Type} {kind : α → Prop} {x : Edit α} (h : Ensures inv kind fault x)
    (hf : inv f) : inv (x.after f) := by
  have after := h f hf
  cases hx : x f with
  | ok a g =>
    rw [hx] at after
    rw [Edit.after_ok hx]
    exact after.1
  | error e g =>
    rw [hx] at after
    rw [Edit.after_error hx]
    exact after.1

/-- An invariant that the edits uphold, whatever the numbers, is kept by every call. -/
theorem Upheld.call (up : Upheld (fun _ => True) fault inv) (hf : inv f) (c : Call)
    (compact : c = .compact → inv f.compact) : inv (c.after f) := by
  cases c with
  | number x => exact (up.number x trivial).after hf
  | var key => exact (up.var key).after hf
  | unary op a =>
    cases op with
    | unary op => exact (up.applyUnary op a).after hf
    | binary op => exact hf
  | binary op a b =>
    cases op with
    | unary op => exact hf
    | binary op => exact (up.applyBinary op a b).after hf
  | setRoot i => exact (up.setRoot i).after hf
  | replace old new => exact (up.replace old new).after hf
  | copy i => exact (up.copy i).after hf
  | graft other i => exact (up.graft (fun _ _ _ => trivial) i).after hf
  | compact => exact compact rfl

namespace Forest

inductive Used [Elementary] : Forest → Prop where
  | empty : Used .empty
  | ofInfix {text : String} {f : Forest} (made : ofInfix text = .ok f) : Used f
  | ofPolish {text : String} {f : Forest} (made : ofPolish text = .ok f) : Used f
  | use {f : Forest} {σ : Type} (sink : Sink σ) (notes : σ) (u : Use) (before : Used f)
    (allowed : u.Allowed f) : Used (u.after f sink notes)

/-! ### Consistency -/

theorem Consistent.ofTerm {t : Term Char} (made : ofTerm t = .ok f) : f.Consistent :=
  upheld.ofTerm made (fun _ _ => trivial) empty_consistent

theorem Consistent.call (h : f.Consistent) (c : Call) (allowed : c = .compact → f.Acyclic) :
    (c.after f).Consistent :=
  upheld.call h c fun compact => (allowed compact).compact_consistent

section

variable [Elementary] {σ : Type}

theorem Consistent.operation (h : f.Consistent) (sink : Sink σ) (notes : σ) (op : Operation)
    (allowed : (Use.operation op).Allowed f) : (f.afterOperation sink notes op).Consistent := by
  by_cases compacts : op = .compact
  · subst compacts
    exact Acyclic.compact_consistent allowed
  · refine upheld.afterOperation true_stable sink ?_ (fun _ _ _ _ _ _ => trivial) h notes
    rintro (rfl | ⟨symbol, n, rfl⟩)
    · exact absurd rfl compacts
    · exact absurd allowed id

/-- One use keeps a forest consistent. -/
theorem Consistent.use (h : f.Consistent) (sink : Sink σ) (notes : σ) {u : Use}
    (allowed : u.Allowed f) : (u.after f sink notes).Consistent := by
  cases u with
  | call c =>
    apply h.call c
    rintro rfl
    exact allowed
  | retire i => exact h.retire _
  | operation op => exact h.operation sink notes op allowed

theorem Used.consistent (used : f.Used) : f.Consistent := by
  induction used with
  | empty => exact empty_consistent
  | ofInfix made =>
    obtain ⟨t, -, made⟩ := Except.bind_eq_ok made
    exact Consistent.ofTerm made
  | ofPolish made =>
    obtain ⟨t, -, made⟩ := Except.bind_eq_ok made
    exact Consistent.ofTerm made
  | use sink notes u _ allowed ih => exact ih.use sink notes allowed

/-! ### Numbers of operands -/

omit [Elementary] in
/-- No edit has an operator of the wrong kind, whatever the numbers are. -/
theorem arity_upheld :
    Upheld (fun _ => True) (fun e => ∀ op, e ≠ .arity op) (Numbers fun _ => True) :=
  keptByWrites_numbers.upheld fun _ h => h

theorem step_evaluation_ne_arity {r : Registry} {stack : List Float} {s : Step Key} {e : Fault}
    (h : (evaluation r).step stack s = .error e) (op : Operator) : e ≠ .arity op := by
  obtain ⟨x, -, done⟩ | ⟨key, -, done⟩ | done | ⟨op, x, y?, rest, takes⟩ := step_cases r stack s
  · rw [done] at h
    cases h
  · rw [done, Except.map_eq_error_iff] at h
    rcases Registry.value_eq_error h with ⟨-, rfl⟩ | ⟨entry, -, rfl⟩
    · nofun
    · nofun
  · rw [done] at h
    cases h
    nofun
  · rw [takes.step_eq, Except.map_eq_error_iff] at h
    obtain ⟨signal, rfl⟩ := takes.exists_signal h
    nofun

theorem evaluate_ne_arity (f : Forest) (i : Nat) (op : Operator) :
    f.evaluate i ≠ .error (.arity op) := by
  intro h
  obtain absent | missing | ⟨stack, s, steps, -, failed⟩ := evaluate_eq_error h
  · simp [absent?] at absent
  · cases missing
  · exact step_evaluation_ne_arity failed op rfl

theorem differentiate_ne_arity (sink : Sink σ) (notes : σ) (f : Forest) (i : Nat) (key : Key)
    (op : Operator) (w : Watched σ) :
    Watch.differentiate sink i key ⟨f, notes⟩ ≠ .error (.arity op) w := by
  intro h
  have after := arity_upheld.differentiate true_stable sink i key ⟨f, notes⟩ fun _ _ _ => trivial
  rw [h] at after
  exact after.2 op rfl

/-- A forest in any use is consistent. So a replacement of one of its nodes by another fails only
where that one is attached elsewhere, and never finds a parent without slots. -/
theorem consistent_of_used (used : f.Used) : f.Consistent ∧
    (∀ old new, old < f.size → new < f.size → ∀ e g, Edit.replace old new f = .error e g →
      e = .alreadyAttached new) ∧
    (∀ i op, f.evaluate i ≠ .error (.arity op)) ∧
    ∀ {σ : Type} (sink : Sink σ) (notes : σ) (i : Nat) (key : Key) (op : Operator) (w : Watched σ),
      Watch.differentiate sink i key ⟨f, notes⟩ ≠ .error (.arity op) w :=
  ⟨used.consistent, fun _ _ hold hnew _ _ => used.consistent.replace_error hold hnew,
    f.evaluate_ne_arity, fun sink notes => differentiate_ne_arity sink notes f⟩

theorem used_run (calls : List Call) (kept : ∀ c ∈ calls, c ≠ .compact) :
    (Call.run calls).1.Used := by
  induction calls using List.reverseRecOn with
  | nil => exact .empty
  | append_singleton calls c ih =>
    rw [List.forall_mem_append] at kept
    have compacts : c ≠ .compact := kept.2 c List.mem_cons_self
    have allowed : (Use.call c).Allowed (Call.run calls).1 := by
      cases c <;> trivial
    rw [Call.run_append]
    exact .use Sink.silent () (.call c) (ih kept.1) allowed

end

/-- The sum takes the place of the sine, and then the sine is used again beside a new owner of
the sum. -/
def rejoined : List Call :=
  [.number 0, .var 7, .binary (.binary .add) 0 1, .unary (.unary .sin) 2, .replace 3 2,
    .unary (.unary .cos) 2, .binary (.binary .mul) 3 4, .setRoot 5]

theorem acyclic_rejoined : (Call.run rejoined).1.Acyclic := by
  have root : (Call.run rejoined).1.root = some 5 := by decide
  have size : (Call.run rejoined).1.size = 6 := by decide
  apply acyclic_of_lt
  · decide
  · intro r hr
    rw [root, Option.some.injEq] at hr
    omega

/-- The sum is live on two paths, so compaction keeps it twice. -/
theorem consistent_rejoined :
    let f := (Call.run rejoined).1
    (f.slots 3 = [2] ∧ f.slots 4 = [2] ∧ f.parent 2 = some 4) ∧
      @Used .coarse f.compact ∧ f.compact.size = 9 ∧ f.compact.Consistent ∧
      ∀ old new, old < 9 → new < 9 → ∀ e g, Edit.replace old new f.compact = .error e g →
        e = .alreadyAttached new := by
  intro f
  have used : @Used .coarse f := @used_run .coarse rejoined (by simp [rejoined])
  have compacted : @Used .coarse f.compact :=
    @Used.use .coarse f Unit Sink.silent () (.call .compact) used acyclic_rejoined
  have size : f.compact.size = 9 := by decide
  obtain ⟨consistent, replace, -⟩ := @consistent_of_used f.compact .coarse compacted
  rw [size] at replace
  exact ⟨by decide, compacted, size, consistent, replace⟩

end Forest

end Fluxion
