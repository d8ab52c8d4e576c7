import Fluxion.Proofs.Derivative.Exchange
import Fluxion.Proofs.Forest.Duplicates
import Fluxion.Proofs.Reports

/-!
# What a failure leaves

Single edits check their arguments before they write, so they fail without a trace. Copies and
derivatives may fail when much has been built, as they do where an expression uses a node twice
after it lost its tree shape. All that is left of them is beside what was there before.
-/

namespace Fluxion

/-! ### Edits that check first -/

/-- A failure of the edit leaves everything as it was. -/
def Edit.ChecksFirst {α : Type} (x : Edit α) : Prop :=
  ∀ f e g, x f = .error e g → g = f

namespace Edit

namespace ChecksFirst

variable {α β : Type} {x : Edit α} {k : α → Edit β}

theorem throw (e : Fault) : (MonadExcept.throw e : Edit α).ChecksFirst := by
  rintro f e' g ⟨⟩
  rfl

theorem of_ok (ok : ∀ f, ∃ a g, x f = .ok a g) : x.ChecksFirst := by
  intro f e g failed
  obtain ⟨a, g', done⟩ := ok f
  rw [done] at failed
  cases failed

theorem require {check : Forest → Option Fault} {k : Unit → Edit β} (rest : (k ()).ChecksFirst) :
    (Edit.require check >>= k).ChecksFirst := by
  intro f e g failed
  cases hc : check f with
  | none =>
    rw [bind_ok (require_ok hc)] at failed
    exact rest f e g failed
  | some e' =>
    rw [bind_error (require_error hc)] at failed
    cases failed
    rfl

theorem look {view : Forest → α} (rest : ∀ a, (k a).ChecksFirst) :
    (Edit.look view >>= k).ChecksFirst :=
  fun f e g failed => rest (view f) f e g failed

/-- What follows the checks does not fail. -/
theorem andThen (first : x.ChecksFirst) (rest : ∀ a f, ∃ b g, k a f = .ok b g) :
    (x >>= k).ChecksFirst := by
  intro f e g failed
  rcases bind_eq_error failed with failed | ⟨a, f₁, -, failed⟩
  · exact first f e g failed
  · obtain ⟨b, g', done⟩ := rest a f₁
    rw [done] at failed
    cases failed

end ChecksFirst

theorem number_checksFirst (x : Float) : (number x).ChecksFirst :=
  .of_ok fun _ => ⟨_, _, rfl⟩

theorem var_checksFirst (key : Key) : (var key).ChecksFirst :=
  .of_ok fun _ => ⟨_, _, rfl⟩

theorem applyUnary_checksFirst (op : Unary) (a : Nat) : (applyUnary op a).ChecksFirst :=
  .require (.of_ok fun _ => ⟨_, _, rfl⟩)

theorem applyBinary_checksFirst (op : Binary) (a b : Nat) : (applyBinary op a b).ChecksFirst := by
  refine .require (.require ?_)
  by_cases same : a = b
  · rw [if_pos same]
    exact .throw _
  · rw [if_neg same]
    exact .of_ok fun _ => ⟨_, _, rfl⟩

theorem unary_checksFirst (op : Operator) (a : Nat) : (unary op a).ChecksFirst := by
  cases op with
  | unary op => exact applyUnary_checksFirst op a
  | binary op => exact .throw _

theorem binary_checksFirst (op : Operator) (a b : Nat) : (binary op a b).ChecksFirst := by
  cases op with
  | unary op => exact .throw _
  | binary op => exact applyBinary_checksFirst op a b

theorem setRoot_checksFirst (i : Nat) : (setRoot i).ChecksFirst :=
  .require (.require (.of_ok fun _ => ⟨_, _, rfl⟩))

theorem refill_checksFirst (p old new : Nat) : (refill p old new).ChecksFirst :=
  .require (.of_ok fun _ => ⟨_, _, rfl⟩)

theorem replace_checksFirst (old new : Nat) : (replace old new).ChecksFirst := by
  refine .require (.require ?_)
  by_cases same : old = new
  · rw [if_pos same]
    exact .of_ok fun f => ⟨(), f, rfl⟩
  · rw [if_neg same]
    refine .require (.look fun p? => ?_)
    cases p? with
    | some p => exact (refill_checksFirst p old new).andThen fun _ _ => ⟨_, _, rfl⟩
    | none => exact .of_ok fun _ => ⟨_, _, rfl⟩

theorem assign_checksFirst (symbol : Char) (value : Float) :
    (assign symbol value).ChecksFirst := by
  intro f e g failed
  unfold assign at failed
  split at failed
  · cases failed
  · cases failed
    rfl

end Edit

/-! ### Differentiation -/

section

variable {σ : Type} {sink : Sink σ} {notes notes' : σ} {f g : Forest} {i : Nat}
  {key : Key} {symbol : Char} {e : Fault}

/-- A derivative that is not finished has been built beside the expression, and one that cannot
take its place stays there. -/
theorem Watch.beside_of_differentiate
    (failed : differentiate sink i key ⟨f, notes⟩ = .error e ⟨g, notes'⟩) : f.Beside g := by
  by_cases present : i < f.size
  · have found : f.absent? i = none := if_pos present
    have built := derive_beside sink i key ⟨f, notes⟩ (Forest.Beside.refl f)
    rw [differentiate, bind_ok (act_ok (Edit.require_ok found))] at failed
    rcases bind_eq_error failed with failed | ⟨d, ⟨f₁, notes₁⟩, derived, failed⟩
    · rw [failed] at built
      exact built.1
    · rw [derived] at built
      rcases bind_eq_error failed with failed | ⟨-, w, -, reported⟩
      · rw [Edit.replace_checksFirst i d f₁ e g (act_eq_error failed)]
        exact built.1
      · cases reported
  · have missing : f.absent? i = some .missingNode := if_neg present
    rw [differentiate, bind_error (act_error (Edit.require_error missing))] at failed
    cases failed
    exact .refl f

theorem Watch.beside_of_differentiateRoot
    (failed : differentiateRoot sink symbol ⟨f, notes⟩ = .error e ⟨g, notes'⟩) : f.Beside g := by
  cases defined : f.definedKey symbol with
  | error e' =>
    have missing : Edit.definedKey symbol f = .error e' f := by
      simp only [Edit.definedKey, defined]
    rw [differentiateRoot, bind_error (act_error missing)] at failed
    cases failed
    exact .refl f
  | ok key =>
    have found : Edit.definedKey symbol f = .ok key f := by
      simp only [Edit.definedKey, defined]
    rw [differentiateRoot, bind_ok (act_ok found)] at failed
    cases root : f.root with
    | none =>
      have rootless : Edit.rootIndex f = .error .missingNode f := by
        simp only [Edit.rootIndex, root]
      rw [bind_error (act_error rootless)] at failed
      cases failed
      exact .refl f
    | some r =>
      have rooted : Edit.rootIndex f = .ok r f := by simp only [Edit.rootIndex, root]
      rw [bind_ok (act_ok rooted)] at failed
      cases done : differentiate sink r key ⟨f, notes⟩ with
      | ok d w =>
        rw [discard_ok done] at failed
        cases failed
      | error e' w =>
        rw [discard_error done] at failed
        cases failed
        exact beside_of_differentiate done

end

namespace Forest

variable {f g : Forest} {e : Fault}

/-- A call or an operation on `f` that fails with the fault and leaves `g`. The source of a graft
must not lead back to itself. -/
inductive Fails (f : Forest) : Fault → Forest → Prop where
  | number {x : Float} {e : Fault} {g : Forest} (failed : Edit.number x f = .error e g) :
    Fails f e g
  | var {key : Key} {e : Fault} {g : Forest} (failed : Edit.var key f = .error e g) : Fails f e g
  | unary {op : Operator} {a : Nat} {e : Fault} {g : Forest}
    (failed : Edit.unary op a f = .error e g) : Fails f e g
  | binary {op : Operator} {a b : Nat} {e : Fault} {g : Forest}
    (failed : Edit.binary op a b f = .error e g) : Fails f e g
  | setRoot {i : Nat} {e : Fault} {g : Forest} (failed : Edit.setRoot i f = .error e g) :
    Fails f e g
  | replace {old new : Nat} {e : Fault} {g : Forest}
    (failed : Edit.replace old new f = .error e g) : Fails f e g
  | copy {i : Nat} {e : Fault} {g : Forest} (failed : Edit.copy i f = .error e g) : Fails f e g
  | graft {other : Forest} {i : Nat} {e : Fault} {g : Forest}
    (source : i < other.size → other.AcyclicFrom i)
    (failed : Edit.graft other i f = .error e g) : Fails f e g
  | differentiate {σ : Type} {sink : Sink σ} {notes notes' : σ} {i : Nat} {key : Key} {e : Fault}
    {g : Forest}
    (failed : Watch.differentiate sink i key ⟨f, notes⟩ = .error e ⟨g, notes'⟩) : Fails f e g
  | differentiateRoot {σ : Type} {sink : Sink σ} {notes notes' : σ} {symbol : Char} {e : Fault}
    {g : Forest}
    (failed : Watch.differentiateRoot sink symbol ⟨f, notes⟩ = .error e ⟨g, notes'⟩) : Fails f e g
  | assign {symbol : Char} {value : Float} {e : Fault} {g : Forest}
    (failed : Edit.assign symbol value f = .error e g) : Fails f e g

theorem beside_of_checksFirst {α : Type} {x : Edit α} (checks : x.ChecksFirst)
    (failed : x f = .error e g) : f.Beside g := by
  rw [checks f e g failed]
  exact .refl f

/-- A graft fails only where there is nothing to be copied. -/
theorem Sized.eq_of_graft_error (base : f.Sized) {other : Forest} {i : Nat}
    (source : i < other.size → other.AcyclicFrom i)
    (failed : Edit.graft other i f = .error e g) : g = f := by
  by_cases present : i < other.size
  · obtain ⟨s, rfl, fits⟩ := (source present).exists_tree
    obtain ⟨d, g', done, -⟩ := base.graft_ok fits
    rw [done] at failed
    cases failed
  · have absent : other.absent? i = some .missingNode := if_neg present
    rw [Edit.graft, absent] at failed
    cases failed
    rfl

/-- What fails leaves the root, the retired nodes, the registry, and all nodes and their parents
as they were. No new node has an old one in a slot. -/
theorem failures_spare [Elementary] {f : Forest} (obtained : f.Obtained) {e : Fault} {g : Forest}
    (fails : f.Fails e g) : f.Beside g := by
  cases fails with
  | number failed => exact beside_of_checksFirst (Edit.number_checksFirst _) failed
  | var failed => exact beside_of_checksFirst (Edit.var_checksFirst _) failed
  | unary failed => exact beside_of_checksFirst (Edit.unary_checksFirst _ _) failed
  | binary failed => exact beside_of_checksFirst (Edit.binary_checksFirst _ _ _) failed
  | setRoot failed => exact beside_of_checksFirst (Edit.setRoot_checksFirst _) failed
  | replace failed => exact beside_of_checksFirst (Edit.replace_checksFirst _ _) failed
  | @copy i _ _ failed =>
    have built := Edit.copy_beside i f (Beside.refl f)
    rw [failed] at built
    exact built.1
  | graft source failed =>
    rw [obtained.sized.eq_of_graft_error source failed]
    exact .refl f
  | differentiate failed => exact Watch.beside_of_differentiate failed
  | differentiateRoot failed => exact Watch.beside_of_differentiateRoot failed
  | assign failed => exact beside_of_checksFirst (Edit.assign_checksFirst _ _) failed

theorem obtained_run [Elementary] (calls : List Call) : (Call.run calls).1.Obtained := by
  induction calls using List.reverseRecOn with
  | nil => exact .empty
  | append_singleton calls c ih =>
    rw [Call.run_append]
    exact .use Sink.silent () (.call c) ih

/-- The number below a retired sine is used again as a divisor. With the sine the root of a
product, the number stands at two places. -/
def dividedBySine : List Call :=
  [.number 2, .var 7, .unary (.unary .sin) 0, .replace 2 0, .binary (.binary .div) 1 0,
    .binary (.binary .mul) 3 2, .setRoot 4]

/-- The sine needs the derivative of the number and the quotient does not. The quotient is asked
last, so the sine finds none, but not before the derivative of the quotient is there. -/
theorem failures_spare_dividedBySine :
    let f := (Call.run dividedBySine).1
    @Obtained .coarse f ∧ f.slots 2 = [0] ∧ f.slots 3 = [1, 0] ∧
      ∃ g, Watch.differentiate Sink.silent 4 7 ⟨f, ()⟩ = .error .missingNode ⟨g, ()⟩ ∧
        g.size = f.size + 3 ∧ f.Beside g := by
  intro f
  have obtained : @Obtained .coarse f := @obtained_run .coarse dividedBySine
  have fault : (Watch.outcome (Watch.differentiate Sink.silent 4 7 ⟨f, ()⟩)).1 =
      .error .missingNode := by decide
  have size : (Watch.outcome (Watch.differentiate Sink.silent 4 7 ⟨f, ()⟩)).2.size =
      f.size + 3 := by decide
  cases done : Watch.differentiate Sink.silent 4 7 ⟨f, ()⟩ with
  | ok d w =>
    rw [done] at fault
    cases fault
  | error e w =>
    rw [done] at fault size
    cases fault
    exact ⟨obtained, by decide, by decide, w.forest, rfl, size,
      @failures_spare .coarse f obtained _ w.forest (.differentiate done)⟩

end Forest

end Fluxion
