import Fluxion.Proofs.Forest.BondedEdits
import Fluxion.Proofs.Forest.Building

/-!
# Safe edits

An edit is safe if it keeps all bonds and spends no node, whatever it comes to. All edits but
one are safe, and so is a program of them, whether or not it runs to its end. Replacement is
safe as well unless a node makes way for its own operand; then this node is spent.
-/

namespace Fluxion

namespace Edit

variable {α β : Type} {f : Forest} {spent : List Nat}

/-- The forest that is left after a success or a failure. -/
def after (x : Edit α) (f : Forest) : Forest :=
  match x f with
  | .ok _ g => g
  | .error _ g => g

theorem after_ok {x : Edit α} {a : α} {g : Forest} (h : x f = .ok a g) : x.after f = g := by
  simp only [after, h]

theorem after_error {x : Edit α} {e : Fault} {g : Forest} (h : x f = .error e g) :
    x.after f = g := by
  simp only [after, h]

/-- Bonds are kept, and no node is spent. -/
def Safe (x : Edit α) : Prop :=
  ∀ (f : Forest) (spent : List Nat), f.Bonded spent → (x.after f).Bonded spent

theorem Safe.bind {x : Edit α} {k : α → Edit β} (hx : x.Safe) (hk : ∀ a, (k a).Safe) :
    (x >>= k).Safe := by
  intro f spent h
  have first := hx f spent h
  cases run : x f with
  | ok a g =>
    rw [after_ok run] at first
    have next := hk a g spent first
    rw [after] at next ⊢
    rw [bind_ok run]
    exact next
  | error e g =>
    rw [after_error run] at first
    rw [after_error (bind_error run)]
    exact first

theorem pure_safe (a : α) : (pure a : Edit α).Safe := fun _ _ h => h

theorem throw_safe (e : Fault) : (throw e : Edit α).Safe := fun _ _ h => h

theorem number_safe (x : Float) : (number x).Safe := fun _ _ h => h.push_leaf rfl

theorem var_safe (key : Key) : (var key).Safe := fun _ _ h => h.push_leaf rfl

theorem applyUnary_safe (op : Unary) (a : Nat) : (applyUnary op a).Safe := by
  intro f spent h
  cases free : f.unfree? a with
  | none =>
    rw [after_ok (Forest.applyUnary_ok op free)]
    exact h.push_unary op free
  | some e =>
    rw [applyUnary, after_error (bind_error (require_error free))]
    exact h

theorem applyBinary_safe (op : Binary) (a b : Nat) : (applyBinary op a b).Safe := by
  intro f spent h
  cases freeLeft : f.unfree? a with
  | some e =>
    rw [applyBinary, after_error (bind_error (require_error freeLeft))]
    exact h
  | none =>
    cases freeRight : f.unfree? b with
    | some e =>
      have failed : applyBinary op a b f = .error e f := by
        rw [applyBinary, bind_ok (require_ok freeLeft)]
        exact bind_error (require_error freeRight)
      rw [after_error failed]
      exact h
    | none =>
      by_cases same : a = b
      · have failed : applyBinary op a b f = .error (.alreadyAttached b) f := by
          rw [applyBinary, bind_ok (require_ok freeLeft), bind_ok (require_ok freeRight),
            if_pos same]
          rfl
        rw [after_error failed]
        exact h
      · rw [after_ok (Forest.applyBinary_ok op freeLeft freeRight same)]
        exact h.push_binary op same freeLeft freeRight

theorem unary_safe (op : Operator) (a : Nat) : (unary op a).Safe := by
  cases op with
  | unary op => exact applyUnary_safe op a
  | binary op => exact throw_safe _

theorem binary_safe (op : Operator) (a b : Nat) : (binary op a b).Safe := by
  cases op with
  | unary op => exact throw_safe _
  | binary op => exact applyBinary_safe op a b

theorem setRoot_safe (i : Nat) : (setRoot i).Safe := by
  intro f spent h
  by_cases lt : i < f.size
  · cases above : f.parent i with
    | none =>
      rw [after_ok (Forest.setRoot_ok lt above)]
      refine ⟨h.sizes, h.slots_lt, ?_, ?_, h.mem_slots, h.keeps_iff⟩
      · rintro r ⟨⟩
        exact lt
      · rintro r ⟨⟩
        exact above
    | some p =>
      have present : f.absent? i = none := if_pos lt
      have attached : (if (f.parent i).isSome then some (Fault.alreadyAttached i)
          else none) = some (.alreadyAttached i) := by
        rw [above]
        rfl
      have failed : setRoot i f = .error (.alreadyAttached i) f :=
        (bind_ok (require_ok present)).trans (bind_error (require_error attached))
      rw [after_error failed]
      exact h
  · have absent : f.absent? i = some .missingNode := if_neg lt
    rw [setRoot, after_error (bind_error (require_error absent))]
    exact h

section

variable {ν : Type} {alg : Algebra Edit ν Nat} {key : ν → Key} {enter : Registry → ν → Registry}

theorem step_safe (builds : alg.Builds key enter) (stack : List Nat) (s : Step ν) :
    (alg.step stack s).Safe := by
  cases s with
  | number x =>
    rw [Algebra.step, builds.number]
    exact (number_safe x).bind fun _ => pure_safe _
  | var n =>
    have var : (alg.var n).Safe := by
      intro f spent h
      rw [after, builds.var]
      exact var_safe (key n) _ spent (h.reregister (enter f.registry n))
    exact var.bind fun _ => pure_safe _
  | unary op =>
    cases stack with
    | nil => exact throw_safe _
    | cons a stack =>
      rw [Algebra.step, builds.unary]
      exact (applyUnary_safe op a).bind fun _ => pure_safe _
  | binary op =>
    cases stack with
    | nil => exact throw_safe _
    | cons b stack =>
      cases stack with
      | nil => exact throw_safe _
      | cons a stack =>
        rw [Algebra.step, builds.binary]
        exact (applyBinary_safe op a b).bind fun _ => pure_safe _

theorem run_safe (builds : alg.Builds key enter) (ss : List (Step ν)) : (alg.run ss).Safe := by
  have steps (stack : List Nat) : (ss.foldlM alg.step stack).Safe := by
    induction ss generalizing stack with
    | nil => exact pure_safe stack
    | cons s ss ih =>
      rw [List.foldlM_cons]
      exact (step_safe builds stack s).bind ih
  apply (steps []).bind
  intro stack
  cases stack with
  | nil => exact throw_safe _
  | cons a stack => exact pure_safe a

end

theorem copy_safe (i : Nat) : (copy i).Safe := by
  intro f spent h
  cases absent : f.absent? i with
  | some e =>
    rw [copy, after_error (bind_error (require_error absent))]
    exact h
  | none =>
    have run : copy i f = copying.run (f.program i) f := by
      rw [copy, bind_ok (require_ok absent)]
      rfl
    rw [after, run]
    exact run_safe copying_builds (f.program i) f spent h

theorem graft_safe (other : Forest) (i : Nat) : (graft other i).Safe := by
  intro f spent h
  rw [graft]
  cases other.absent? i with
  | some e => exact h
  | none => exact run_safe grafting_builds _ f spent h

theorem replace_bonded (h : f.Bonded spent) (old new : Nat) : ((replace old new).after f).Bonded
    (if old ≠ new ∧ f.parent new = some old then old :: spent else spent) := by
  by_cases present : old < f.size ∧ new < f.size
  · obtain ⟨hold, hnew⟩ := present
    by_cases same : old = new
    · subst same
      rw [after_ok (Forest.replace_self hold)]
      simpa using h
    · cases movable : f.movable old new with
      | true =>
        rw [after_ok (Forest.replace_ok hold hnew same movable h.holder)]
        simpa [same] using h.moved same hnew movable
      | false =>
        have child : f.parent new ≠ some old := by
          intro child
          rw [Forest.movable_iff.mpr (Or.inr child)] at movable
          cases movable
        rw [after_error (Forest.replace_attached hold hnew same movable)]
        simpa [child] using h
  · have child : f.parent new ≠ some old := by
      intro child
      have slot := h.mem_slots new old child
      exact present ⟨Forest.lt_of_mem_slots slot, h.slots_lt old new slot⟩
    have absent : f.size ≤ old ∨ f.size ≤ new := by omega
    rw [after_error (Forest.replace_absent absent)]
    simpa [child] using h

end Edit

end Fluxion
