import Fluxion.Evaluation
import Fluxion.Proofs.Sequencing
import Fluxion.Proofs.Simplification.Identity
import Fluxion.Proofs.Simplification.Term

/-!
# Values of terms under simplification

A term with finite numbers and finite values of its variables has a finite value, and keeps
it up to the sign of zero under every replacement that is exact, under a pass, and under
passes until the term settles.
-/

namespace Fluxion

variable [Elementary] {r : Registry} {s t : Term Key} {v w : Float}

namespace Term

def value (r : Registry) (t : Term Key) : Except Fault Float := t.foldM (evaluation r)

theorem value_unary {op : Unary} : (unary op t).value r = .ok v ↔
    ∃ x, t.value r = .ok x ∧ op.apply x = .ok v := by
  rw [value, foldM, ← value]
  cases t.value r with
  | error e => simp [bind, Except.bind]
  | ok x =>
    simp only [evaluation, bind, Except.bind, Except.ok.injEq, exists_eq_left']
    exact Except.mapError_eq_ok_iff

theorem value_binary {op : Binary} : (binary op s t).value r = .ok v ↔
    ∃ x y, s.value r = .ok x ∧ t.value r = .ok y ∧ op.apply x y = .ok v := by
  rw [value, foldM, ← value, ← value]
  cases s.value r with
  | error e => simp [bind, Except.bind]
  | ok x =>
    cases t.value r with
    | error e => simp [bind, Except.bind]
    | ok y =>
      simp only [evaluation, bind, Except.bind, Except.ok.injEq, exists_and_left, exists_eq_left']
      exact Except.mapError_eq_ok_iff

/-- Terms fail with a signal, or as one of their variables does. -/
theorem value_error {e : Fault} (h : t.value r = .error e) :
    (∃ c, e = .numeric c) ∨ ∃ key ∈ t.names, r.value key = .error e := by
  induction t with
  | number x => cases h
  | var key => exact Or.inr ⟨key, List.mem_cons_self, h⟩
  | unary op t ih =>
    rw [value, foldM, ← value] at h
    rcases Except.bind_eq_error h with failed | ⟨x, -, raised⟩
    · exact ih failed
    · obtain ⟨c, -, rfl⟩ := Except.mapError_eq_error_iff.mp raised
      exact Or.inl ⟨c, rfl⟩
  | binary op s t ihs iht =>
    rw [value, foldM, ← value, ← value] at h
    rcases Except.bind_eq_error h with failed | ⟨x, -, h⟩
    · exact (ihs failed).imp_right fun ⟨key, hk, failed⟩ =>
        ⟨key, List.mem_append_left _ hk, failed⟩
    · rcases Except.bind_eq_error h with failed | ⟨y, -, raised⟩
      · exact (iht failed).imp_right fun ⟨key, hk, failed⟩ =>
          ⟨key, List.mem_append_right _ hk, failed⟩
      · obtain ⟨c, -, rfl⟩ := Except.mapError_eq_error_iff.mp raised
        exact Or.inl ⟨c, rfl⟩

/-- Where all variables have values, only signals are left to fail. -/
theorem numeric_of_value {e : Fault} (values : ∀ key ∈ t.names, ∃ x, r.value key = .ok x)
    (h : t.value r = .error e) : ∃ c, e = .numeric c := by
  rcases value_error h with signal | ⟨key, hk, failed⟩
  · exact signal
  · obtain ⟨x, hx⟩ := values key hk
    rw [hx] at failed
    cases failed

/-- Only the values of its variables matter to a term. -/
theorem value_congr {r' : Registry} (same : ∀ key ∈ t.names, r.value key = r'.value key) :
    t.value r = t.value r' := by
  induction t with
  | number x => rfl
  | var key => exact same key List.mem_cons_self
  | unary op t ih =>
    rw [value, value, foldM, foldM, ← value, ← value, ih same]
    rfl
  | binary op s t ihs iht =>
    rw [names, List.forall_mem_append] at same
    simp only [value, foldM] at ihs iht ⊢
    rw [ihs same.1, iht same.2]
    rfl

/-- Every number is finite, and so is the value of every variable that has one. -/
def Finite (r : Registry) : Term Key → Prop
  | number x => x.isFinite = true
  | var key => ∀ x, r.value key = .ok x → x.isFinite = true
  | unary _ t => t.Finite r
  | binary _ s t => s.Finite r ∧ t.Finite r

theorem Finite.value (h : t.Finite r) (hv : t.value r = .ok v) : v.isFinite = true := by
  induction t generalizing v with
  | number x =>
    cases hv
    exact h
  | var key => exact h v hv
  | unary op t ih =>
    obtain ⟨x, hx, hv⟩ := value_unary.mp hv
    exact Unary.isFinite_apply (ih h hx) hv
  | binary op s t ihs iht =>
    obtain ⟨x, y, hx, hy, hv⟩ := value_binary.mp hv
    exact Binary.isFinite_apply (ihs h.1 hx) (iht h.2 hy) hv

/-- The visit of the top replaces nothing but what is exactly equal. -/
def ExactTop (r : Registry) : Term Key → Prop
  | binary op s t =>
    match s.number?, t.number? with
    | some _, some _ => True
    | x?, y? => op.Exact x? y? (t.value r)
  | _ => True

/-- Every visit of the pass does. -/
def ExactPass (r : Registry) : Term Key → Prop
  | unary _ t => t.ExactPass r
  | binary op s t => t.ExactPass r ∧ s.ExactPass r ∧ (binary op s.pass t.pass).ExactTop r
  | _ => True

def ExactSettle (r : Registry) : Nat → Term Key → Prop
  | 0, _ => True
  | passes + 1, t => t.ExactPass r ∧ (t.passReductions ≠ 0 → ExactSettle r passes t.pass)

theorem exactPass_of_everyTop (h : t.EveryTop (ExactTop r)) : t.ExactPass r := by
  induction t with
  | number x => trivial
  | var key => trivial
  | unary op t ih => exact ih h.1
  | binary op s t ihs iht => exact ⟨iht h.1, ihs h.2.1, h.2.2⟩

theorem exact_of_exactTop {op : Binary} (h : (binary op s t).ExactTop r)
    (notBoth : ∀ x y, s = number x → t ≠ number y) :
    op.Exact s.number? t.number? (t.value r) := by
  rw [ExactTop] at h
  split at h
  · next x y hx hy =>
    exact absurd (number?_eq_some.mp hy) (notBoth x y (number?_eq_some.mp hx))
  · exact h

theorem exactTop_of_not_mistaken {op : Binary}
    (clear : ∀ e ∈ op.identities, ∀ x ∈ onSides s.number? t.number? e.side, ¬Mistaken e.target x)
    (base : op = .pow → s.number? = none) : (binary op s t).ExactTop r := by
  rw [ExactTop]
  split
  · trivial
  · exact Binary.exact_of_not_mistaken clear base

/-- The value of a number that is an operand. -/
theorem value_of_number? {x v : Float} (h : t.number? = some x) (hv : t.value r = .ok v) :
    v = x := by
  cases number?_eq_some.mp h
  cases hv
  rfl

/-- Where the operand that an identity accepts is its number, the value of that operand is. -/
theorem onSides_agree {e : Identity} {x y : Float}
    (near : ∀ z ∈ onSides s.number? t.number? e.side, Agree z e.target)
    (accepts : e.accepts s.number? t.number? = true) (hx : s.value r = .ok x)
    (hy : t.value r = .ok y) : Agree (onSides x y e.side) e.target := by
  obtain ⟨z, hz⟩ := Identity.exists_of_accepts accepts
  have agree := near z hz
  cases hside : e.side with
  | left =>
    rw [hside] at hz
    rw [onSides, value_of_number? hz hx]
    exact agree
  | right =>
    rw [hside] at hz
    rw [onSides, value_of_number? hz hy]
    exact agree

/-- An exact replacement by an identity keeps the value. -/
theorem value_leave (lawful : Elementary.Lawful) {op : Binary} {e : Remainder}
    (finite : (binary op s t).Finite r) (exact : op.Exact s.number? t.number? (t.value r))
    (applied : op.identity? s.number? t.number? = some e)
    (h : (binary op s t).value r = .ok v) :
    ∃ w, ((binary op s t).leave e).value r = .ok w ∧ Agree v w := by
  obtain ⟨x, y, hx, hy, hv⟩ := value_binary.mp h
  rw [op.identity?_eq, Option.map_eq_some_iff] at applied
  obtain ⟨identity, accepted, rfl⟩ := applied
  obtain ⟨near, positive⟩ := exact identity accepted
  obtain ⟨mem, accepts⟩ := Binary.accepted?_spec accepted
  have target := onSides_agree near accepts hx hy
  have sound := Identity.sound lawful mem
    (finite.1.value hx) (finite.2.value hy) target (fun ho hr => by
      obtain ⟨y', hy', pos⟩ := positive ho hr
      rw [hy, Except.ok.injEq] at hy'
      exact hy' ▸ pos) hv
  cases hr : identity.remainder with
  | constant c =>
    rw [hr] at sound
    exact ⟨c, rfl, sound⟩
  | left =>
    rw [hr] at sound
    exact ⟨x, hx, sound⟩
  | right =>
    rw [hr] at sound
    exact ⟨y, hy, sound⟩

theorem value_reduce (lawful : Elementary.Lawful) (finite : t.Finite r) (exact : t.ExactTop r)
    (h : t.value r = .ok v) : ∃ w, t.reduce.value r = .ok w ∧ Agree v w := by
  unfold reduce
  split
  · next e he =>
    cases t with
    | number x => simp [remainder?] at he
    | var key => simp [remainder?] at he
    | unary op t =>
      obtain ⟨x, u, rfl, hu, rfl⟩ := remainder?_unary he
      obtain ⟨x', hx', hv⟩ := value_unary.mp h
      cases hx'
      rw [hu, Except.ok.injEq] at hv
      exact ⟨u, rfl, Or.inl hv.symm⟩
    | binary op s t =>
      rcases remainder?_binary he with ⟨x, y, u, rfl, rfl, hu, rfl⟩ | ⟨notBoth, applied⟩
      · obtain ⟨x', y', hx', hy', hv⟩ := value_binary.mp h
        cases hx'
        cases hy'
        rw [hu, Except.ok.injEq] at hv
        exact ⟨u, rfl, Or.inl hv.symm⟩
      · exact value_leave lawful finite (exact_of_exactTop exact notBoth) applied h
  · exact ⟨v, h, .refl v⟩

theorem Finite.reduce (finite : t.Finite r) : t.reduce.Finite r := by
  unfold Term.reduce
  split
  · next e he =>
    cases t with
    | number x => simp [remainder?] at he
    | var key => simp [remainder?] at he
    | unary op t =>
      obtain ⟨x, u, rfl, hu, rfl⟩ := remainder?_unary he
      exact Unary.isFinite_apply finite hu
    | binary op s t =>
      rcases remainder?_binary he with ⟨x, y, u, rfl, rfl, hu, rfl⟩ | ⟨-, applied⟩
      · exact Binary.isFinite_apply finite.1 finite.2 hu
      · rw [op.identity?_eq, Option.map_eq_some_iff] at applied
        obtain ⟨identity, accepted, rfl⟩ := applied
        have mem := (Binary.accepted?_spec accepted).1
        cases hr : identity.remainder with
        | constant c => exact Binary.isFinite_of_mem_identities mem hr
        | left => exact finite.1
        | right => exact finite.2
  · exact finite

theorem Finite.pass (finite : t.Finite r) : t.pass.Finite r := by
  induction t with
  | number x => exact finite
  | var key => exact finite
  | unary op t ih => exact Finite.reduce (t := unary op t.pass) (ih finite)
  | binary op s t ihs iht =>
    exact Finite.reduce (t := binary op s.pass t.pass) ⟨ihs finite.1, iht finite.2⟩

/-- A pass keeps the value: each operand keeps its own, and the sign of a zero among them
does not reach the result of the operation. -/
theorem value_pass (lawful : Elementary.Lawful) (finite : t.Finite r) (exact : t.ExactPass r)
    (h : t.value r = .ok v) : ∃ w, t.pass.value r = .ok w ∧ Agree v w := by
  induction t generalizing v with
  | number x => exact ⟨v, h, .refl v⟩
  | var key => exact ⟨v, h, .refl v⟩
  | unary op t ih =>
    obtain ⟨x, hx, hv⟩ := value_unary.mp h
    obtain ⟨x', hx', agree⟩ := ih finite exact hx
    obtain ⟨v', hv', same⟩ := Unary.apply_congr lawful agree hv
    have finite' : (unary op t.pass).Finite r := Finite.pass (t := t) finite
    obtain ⟨w, hw, close⟩ := value_reduce lawful finite' trivial (value_unary.mpr ⟨x', hx', hv'⟩)
    exact ⟨w, hw, same.trans close⟩
  | binary op s t ihs iht =>
    obtain ⟨x, y, hx, hy, hv⟩ := value_binary.mp h
    obtain ⟨exactRight, exactLeft, exactTop⟩ := exact
    obtain ⟨x', hx', agreeLeft⟩ := ihs finite.1 exactLeft hx
    obtain ⟨y', hy', agreeRight⟩ := iht finite.2 exactRight hy
    obtain ⟨v', hv', same⟩ := Binary.apply_congr lawful agreeLeft agreeRight
      (finite.1.value hx) (finite.2.value hy) hv
    have finite' : (binary op s.pass t.pass).Finite r := ⟨finite.1.pass, finite.2.pass⟩
    obtain ⟨w, hw, close⟩ :=
      value_reduce lawful finite' exactTop (value_binary.mpr ⟨x', y', hx', hy', hv'⟩)
    exact ⟨w, hw, same.trans close⟩

theorem value_settle (lawful : Elementary.Lawful) (passes : Nat) (finite : t.Finite r)
    (exact : t.ExactSettle r passes) (h : t.value r = .ok v) :
    ∃ w, (t.settle passes).value r = .ok w ∧ Agree v w := by
  induction passes generalizing t v with
  | zero => exact ⟨v, h, .refl v⟩
  | succ passes ih =>
    obtain ⟨w, hw, agree⟩ := value_pass lawful finite exact.1 h
    rw [settle]
    split
    · exact ⟨w, hw, agree⟩
    · next more =>
      obtain ⟨u, hu, further⟩ := ih finite.pass (exact.2 more) hw
      exact ⟨u, hu, agree.trans further⟩

end Term

end Fluxion
