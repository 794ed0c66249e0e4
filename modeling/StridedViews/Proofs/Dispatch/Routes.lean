import StridedViews.Dispatch.Builtin

/-!
The two routes of a dispatch. What a site remembers and counts is left out of `Site.generic` and
`Site.specialized`, which are the two implementations as programs of the host alone. A dispatch runs
one of them, and its answer, boxed, is that implementation's result, also where the result narrows to
the wanted kind.
-/

namespace StridedViews

variable {σ : Type}

/-! ### Narrowing and boxing -/

namespace Scalar

variable {wanted : ScalarKind} {s t : Scalar}

theorem toInt64_toInt32 {i : Int64} (h : fitsInt32 i = true) : i.toInt32.toInt64 = i := by
  simp only [fitsInt32, Bool.and_eq_true, decide_eq_true_eq] at h
  rw [← Int64.toInt_inj, Int32.toInt_toInt64, Int64.toInt_toInt32]
  exact Int.bmod_eq_of_le (by omega) (by omega)

theorem toValue_of_ofKind? (h : ofKind? wanted s = some t) : t.toValue = s.toValue := by
  rw [(ofKind?_eq_some_iff.mp h).1]

/-- A value that narrows is the narrowed scalar, boxed. -/
theorem toValue_of_narrow? {v : Value} (h : narrow? wanted v = some s) : s.toValue = v := by
  unfold narrow? at h
  split at h
  · cases h; rfl
  · split at h
    · next fits => cases h; exact congrArg Value.int (toInt64_toInt32 fits)
    · cases h
  · cases h; rfl
  · cases h; rfl
  · cases h

/-- A scalar of exactly the wanted kind is also what its boxed value narrows to. -/
theorem narrow?_toValue_of_ofKind? (h : ofKind? wanted s = some t) :
    narrow? wanted s.toValue = some t := by
  obtain ⟨rfl, rfl⟩ := ofKind?_eq_some_iff.mp h
  exact narrow?_toValue s

end Scalar

/-- A result where a caller wants the scalar that it narrows to. -/
def expected (narrowed : Option Scalar) (value : Value) : Except DispatchError Scalar :=
  narrowed.elim (.error (.unexpectedResult value)) .ok

/-- An outcome where a result that does not narrow is an answer, too. -/
def caught : Except DispatchError Scalar → Except DispatchError Dispatched
  | .ok s => .ok (.scalar s)
  | .error (.unexpectedResult value) => .ok (.generic value)
  | .error e => .error e

theorem boxed_caught_expected {narrowed : Option Scalar} {value : Value}
    (h : ∀ s, narrowed = some s → s.toValue = value) :
    (caught (expected narrowed value)).map Dispatched.boxed = .ok value := by
  cases narrowed with
  | none => rfl
  | some s => exact congrArg Except.ok (h s rfl)

theorem caught_eq_scalar_iff {α : Type} {result : Except Raised α} {narrow : α → Option Scalar}
    {box : α → Value} {s : Scalar} :
    caught (result.mapError .raised >>= fun a => expected (narrow a) (box a)) = .ok (.scalar s) ↔
      ∃ a, result = .ok a ∧ narrow a = some s := by
  cases result with
  | error raised =>
    refine iff_of_false (fun h => ?_) ?_
    · cases h
    · rintro ⟨_, h, _⟩
      cases h
  | ok a =>
    change caught (expected (narrow a) (box a)) = _ ↔ _
    cases h : narrow a <;> simp [expected, caught, h]

/-! ### The implementations -/

/-- Whether the specialised entry takes scalars: each kind is accepted at its position. -/
def Operation.takes (operation : Operation σ) (args : List Scalar) : Bool :=
  args.zipIdx.all fun arg => operation.accepts arg.2 arg.1.kind

/-- What a site remembers after it asked for the cast of a position and got an answer. -/
def SiteMemory.learn (m : SiteMemory σ) (position : Nat) (made : Option (Cast σ)) :
    SiteMemory σ :=
  match m.casts position with
  | some _ => m
  | none =>
    { casts := fun p => if p = position then some made else m.casts p
      stats := if made.isSome then { m.stats with castsMade := m.stats.castsMade + 1 } else m.stats }

theorem SiteMemory.casts_learn_of_ne {m : SiteMemory σ} {position p : Nat} {made : Option (Cast σ)}
    (h : p ≠ position) : (m.learn position made).casts p = m.casts p := by
  unfold SiteMemory.learn
  split
  · rfl
  · exact if_neg h

/-- The casts that are known at a site, each of which may be that there is none. -/
abbrev KnownCasts (σ : Type) := Nat → Option (Option (Cast σ))

namespace Site

variable (site : Site σ)

/-- The cast of a position: the one that is known, or else one that the operation makes. -/
def castFor (known : KnownCasts σ) (position : Nat) : StateM σ (Option (Cast σ)) :=
  match known position with
  | some made => pure made
  | none => site.operation.makeCast position

/-- An argument after the cast of its position, if there is one. -/
def castArg (known : KnownCasts σ) (arg : Value × Nat) :
    ExceptT Raised (StateM σ) Value :=
  ExceptT.mk do
    match ← site.castFor known arg.2 with
    | none => return .ok arg.1
    | some cast => cast arg.1 site.raise

/-- The generic implementation: the operation on arguments that are cast from left to right. -/
def generic (known : KnownCasts σ) (args : List Value) :
    ExceptT Raised (StateM σ) Value := do
  let coerced ← args.zipIdx.mapM (site.castArg known)
  ExceptT.mk (site.operation.call coerced)

/-- The specialised implementation, with its result boxed. -/
def specialized (args : List Scalar) : ExceptT Raised (StateM σ) Value :=
  Scalar.toValue <$> ExceptT.mk (site.operation.callScalars args)

/-- The implementation that scalars go to. -/
def implementation (known : KnownCasts σ) (args : List Scalar) :
    ExceptT Raised (StateM σ) Value :=
  if site.operation.takes args then site.specialized args
  else site.generic known (args.map Scalar.toValue)

/-! ### What a site runs -/

theorem run_cast (m : SiteMemory σ) (position : Nat) :
    (site.cast position).run m =
      (fun made => (made, m.learn position made)) <$> site.castFor m.casts position := by
  unfold Site.cast castFor SiteMemory.learn
  cases h : m.casts position with
  | some made => simp [h]
  | none =>
    simp only [StateT.run_bind, StateT.run_get, pure_bind, h, StateT.run_monadLift, bind_assoc,
      map_eq_pure_bind, monadLift_self]
    exact bind_congr fun made => by cases made <;> rfl

/-- Casting reads the known casts of the positions ahead only, so what it learns on its way does not
change it. -/
theorem run'_castFrom {known : KnownCasts σ} (args : List Value) :
    ∀ (position : Nat) (m : SiteMemory σ), (∀ p, position ≤ p → m.casts p = known p) →
      (site.castFrom position args).run' m =
        ((args.zipIdx position).mapM (site.castArg known)).run := by
  induction args with
  | nil => intro _ _ _; rfl
  | cons v rest ih =>
    intro position m h
    have hcast : site.castFor m.casts position = site.castFor known position := by
      simp only [castFor, h position (Nat.le_refl _)]
    have hrest (made : Option (Cast σ)) := ih (position + 1) (m.learn position made) fun p hp =>
      (SiteMemory.casts_learn_of_ne (by omega)).trans (h p (by omega))
    simp only [StateT.run'_eq] at hrest
    simp only [StateT.run'_eq, castFrom, StateT.run_bind, run_cast, map_bind, bind_map_left,
      List.zipIdx_cons, List.mapM_cons, ExceptT.run_bind, castArg, hcast, ExceptT.run_mk, bind_assoc]
    refine bind_congr fun made => ?_
    rw [← hrest made]
    cases made with
    | none =>
      simp only [pure_bind, StateT.run_bind, map_bind, bind_map_left, ExceptT.run_pure]
      refine bind_congr fun others => ?_
      rcases others with ⟨_ | _, _⟩ <;> rfl
    | some cast =>
      simp only [StateT.run_bind, map_bind, bind_map_left, StateT.run_monadLift, bind_assoc, pure_bind,
        monadLift_self]
      refine bind_congr fun casted => ?_
      cases casted with
      | error raised => rfl
      | ok w =>
        simp only [StateT.run_bind, map_bind]
        refine bind_congr fun others => ?_
        rcases others with ⟨_ | _, _⟩ <;> rfl

theorem run'_call (m : SiteMemory σ) (args : List Value) :
    (site.call args).run' m = Except.mapError .raised <$> (site.generic m.casts args).run := by
  have hcast := site.run'_castFrom args 0
    { m with stats := { m.stats with genericCalls := m.stats.genericCalls + 1 } } fun _ _ => rfl
  simp only [StateT.run'_eq] at hcast
  simp only [StateT.run'_eq, call, generic, count, StateT.run_bind, StateT.run_modify, pure_bind,
    map_bind, ExceptT.run_bind, ← hcast, bind_map_left, ExceptT.run_mk]
  refine bind_congr fun casted => ?_
  rcases casted with ⟨raised | coerced, _⟩
  · rfl
  · simp

theorem acceptsFrom_eq (args : List Scalar) : ∀ position,
    site.acceptsFrom position args =
      (args.zipIdx position).all fun arg => site.operation.accepts arg.2 arg.1.kind := by
  induction args with
  | nil => intro _; rfl
  | cons s rest ih =>
    intro position
    rw [acceptsFrom, ih, List.zipIdx_cons, List.all_cons]

theorem run'_expect (narrowed : Option Scalar) (value : Value) (m : SiteMemory σ) :
    (expect narrowed value).run' m = (pure (expected narrowed value) : StateM σ _) := by
  cases narrowed <;> rfl

theorem run'_dispatch (m : SiteMemory σ) (args : List Scalar) (wanted : ScalarKind) :
    (site.dispatch args wanted).run' m = caught <$> (site.execute args wanted).run' m := by
  simp only [StateT.run'_eq, dispatch, StateT.run_bind, map_eq_pure_bind, bind_assoc, pure_bind]
  refine bind_congr fun outcome => ?_
  rcases outcome with ⟨(_ | _ | _) | _, _⟩ <;> rfl

theorem run'_execute_of_takes {args : List Scalar} (h : site.operation.takes args = true)
    (m : SiteMemory σ) (wanted : ScalarKind) :
    (site.execute args wanted).run' m =
      (fun r => r.mapError .raised >>= fun p => expected (p.ofKind? wanted) p.toValue) <$>
        site.operation.callScalars args := by
  rw [Operation.takes, ← acceptsFrom_eq] at h
  simp only [StateT.run'_eq, execute, h, if_true, count, StateT.run_bind, StateT.run_modify,
    pure_bind, StateT.run_monadLift, monadLift_self, bind_assoc, map_eq_pure_bind]
  refine bind_congr fun r => ?_
  cases r with
  | error raised => rfl
  | ok p => exact run'_expect _ _ _

theorem run'_execute_of_not_takes {args : List Scalar} (h : site.operation.takes args = false)
    (m : SiteMemory σ) (wanted : ScalarKind) :
    (site.execute args wanted).run' m =
      (fun r => r.mapError .raised >>= fun v => expected (Scalar.narrow? wanted v) v) <$>
        (site.generic m.casts (args.map Scalar.toValue)).run := by
  rw [Operation.takes, ← acceptsFrom_eq] at h
  calc (site.execute args wanted).run' m
      = (fun r => r >>= fun v => expected (Scalar.narrow? wanted v) v) <$>
          (site.call (args.map Scalar.toValue)).run' m := by
        simp only [StateT.run'_eq, execute, h, Bool.false_eq_true, if_false, StateT.run_bind,
          map_eq_pure_bind, bind_assoc, pure_bind]
        refine bind_congr fun result => ?_
        rcases result with ⟨e | v, after⟩
        · rfl
        · exact run'_expect _ _ after
    _ = _ := by rw [run'_call, Functor.map_map]

/-! ### Dispatching -/

/-- A boxed dispatch is the implementation that the scalars go to. -/
theorem boxed_dispatch (m : SiteMemory σ) (args : List Scalar) (wanted : ScalarKind) :
    Except.map Dispatched.boxed <$> (site.dispatch args wanted).run' m =
      Except.mapError .raised <$> (site.implementation m.casts args).run := by
  cases h : site.operation.takes args with
  | true =>
    rw [run'_dispatch, run'_execute_of_takes site h, implementation, if_pos h, specialized]
    simp only [ExceptT.run_map, Functor.map_map, ExceptT.run_mk]
    congr 1
    funext r
    cases r with
    | error raised => rfl
    | ok p => exact boxed_caught_expected fun _ => Scalar.toValue_of_ofKind?
  | false =>
    rw [run'_dispatch, run'_execute_of_not_takes site h, implementation, if_neg (by simp [h])]
    simp only [Functor.map_map]
    congr 1
    funext r
    cases r with
    | error raised => rfl
    | ok v => exact boxed_caught_expected fun _ => Scalar.toValue_of_narrow?

/-- The site of an operation that accepts other kinds. -/
def accepting (accepts : Nat → ScalarKind → Bool) : Site σ :=
  { site with operation := { site.operation with accepts } }

/-- What the caller of a dispatch gets in a state of the host. -/
def answer (m : SiteMemory σ) (s : σ) (args : List Scalar) (wanted : ScalarKind) :
    Except DispatchError Dispatched :=
  ((site.dispatch args wanted).run' m s).1

/-- Whether the two implementations have the same result, boxed, in a state of the host. -/
def RoutesAgree (known : KnownCasts σ) (args : List Scalar) (s : σ) : Prop :=
  ((site.specialized args).run s).1 = ((site.generic known (args.map Scalar.toValue)).run s).1

theorem answer_eq_scalar_iff_of_takes {args : List Scalar} (h : site.operation.takes args = true)
    {m : SiteMemory σ} {s : σ} {wanted : ScalarKind} {r : Scalar} :
    site.answer m s args wanted = .ok (.scalar r) ↔
      ∃ p, (site.operation.callScalars args s).1 = .ok p ∧ p.ofKind? wanted = some r := by
  rw [answer, run'_dispatch, run'_execute_of_takes site h]
  exact caught_eq_scalar_iff

theorem answer_eq_scalar_iff_of_not_takes {args : List Scalar}
    (h : site.operation.takes args = false) {m : SiteMemory σ} {s : σ} {wanted : ScalarKind}
    {r : Scalar} :
    site.answer m s args wanted = .ok (.scalar r) ↔
      ∃ v, ((site.generic m.casts (args.map Scalar.toValue)).run s).1 = .ok v ∧
        Scalar.narrow? wanted v = some r := by
  rw [answer, run'_dispatch, run'_execute_of_not_takes site h]
  exact caught_eq_scalar_iff

theorem map_boxed_answer (m : SiteMemory σ) (s : σ) (args : List Scalar) (wanted : ScalarKind) :
    (site.answer m s args wanted).map Dispatched.boxed =
      ((site.implementation m.casts args).run s).1.mapError .raised :=
  congrArg (fun x : StateM σ (Except DispatchError Value) => (x s).1)
    (site.boxed_dispatch m args wanted)

variable {site}

theorem RoutesAgree.implementation_eq {known : KnownCasts σ} {args : List Scalar} {s : σ}
    (h : site.RoutesAgree known args s) (accepts : Nat → ScalarKind → Bool) :
    (((site.accepting accepts).implementation known args).run s).1 =
      ((site.generic known (args.map Scalar.toValue)).run s).1 := by
  unfold implementation
  split
  · exact h
  · rfl

theorem RoutesAgree.generic_eq_ok {known : KnownCasts σ} {args : List Scalar} {s : σ}
    (h : site.RoutesAgree known args s) {p : Scalar}
    (hp : (site.operation.callScalars args s).1 = .ok p) :
    ((site.generic known (args.map Scalar.toValue)).run s).1 = .ok p.toValue := by
  rw [← h, specialized, ExceptT.run_map]
  exact congrArg (Except.map Scalar.toValue) hp

/-- A boxed dispatch is the implementation that the scalars go to, in what it answers, raises and does
to the host. Where the two implementations agree, every choice of accepted kinds gives what the
generic entry gives for boxed arguments. A scalar that the specialised route narrows to, by its kind,
is then what the generic result narrows to, by its value. -/
theorem dispatch_path_independent (site : Site σ) (m : SiteMemory σ) (args : List Scalar)
    (wanted : ScalarKind) :
    Except.map Dispatched.boxed <$> (site.dispatch args wanted).run' m =
        Except.mapError .raised <$> (site.implementation m.casts args).run ∧
      ∀ s, site.RoutesAgree m.casts args s →
        (∀ accepts, ((site.accepting accepts).answer m s args wanted).map Dispatched.boxed =
          ((site.call (args.map Scalar.toValue)).run' m s).1) ∧
        ∀ accepts r, (site.accepting accepts).operation.takes args = true →
          (site.accepting accepts).answer m s args wanted = .ok (.scalar r) →
          (∃ v, ((site.call (args.map Scalar.toValue)).run' m s).1 = .ok v ∧
            Scalar.narrow? wanted v = some r) ∧
          ∀ accepts', (site.accepting accepts').answer m s args wanted = .ok (.scalar r) := by
  refine ⟨site.boxed_dispatch m args wanted, fun s agree => ⟨fun accepts => ?_, ?_⟩⟩
  · rw [map_boxed_answer, agree.implementation_eq, run'_call]
    rfl
  · intro accepts r htakes hr
    obtain ⟨p, hp, hkind⟩ := (answer_eq_scalar_iff_of_takes _ htakes).mp hr
    have hgeneric := agree.generic_eq_ok hp
    have hnarrow := Scalar.narrow?_toValue_of_ofKind? hkind
    refine ⟨⟨p.toValue, ?_, hnarrow⟩, fun accepts' => ?_⟩
    · rw [run'_call]
      exact congrArg (Except.mapError DispatchError.raised) hgeneric
    · cases htakes' : (site.accepting accepts').operation.takes args with
      | true => exact (answer_eq_scalar_iff_of_takes _ htakes').mpr ⟨p, hp, hkind⟩
      | false => exact (answer_eq_scalar_iff_of_not_takes _ htakes').mpr ⟨p.toValue, hgeneric, hnarrow⟩

/-- An operation that returns its first argument, an integer of 32 bits where it is specialised. -/
def firstOf : Site Unit where
  operation :=
    { Builtin.bare (.arg 0) with
      casts := [some ⟨.int, none⟩, some ⟨.long, none⟩]
      accepts := [[.int], [.long]]
      specialized? := some (.arg 0) }.toOperation
  arity := 2
  raise := .plain

theorem dispatch_path_independent_firstOf :
    firstOf.RoutesAgree (fun _ => none) [.int (-3), .long 7] () ∧
      firstOf.operation.takes [.int (-3), .long 7] = true ∧
      firstOf.answer .empty () [.int (-3), .long 7] .int = .ok (.scalar (.int (-3))) ∧
      (firstOf.accepting fun _ _ => false).answer .empty () [.int (-3), .long 7] .int =
        .ok (.scalar (.int (-3))) :=
  have agree : firstOf.RoutesAgree (fun _ => none) [.int (-3), .long 7] () := by rfl
  have takes : firstOf.operation.takes [.int (-3), .long 7] = true := by decide
  have special : firstOf.answer .empty () [.int (-3), .long 7] .int =
      .ok (.scalar (.int (-3))) := by rfl
  have independent := dispatch_path_independent firstOf .empty [.int (-3), .long 7] .int
  ⟨agree, takes, special, ((independent.2 () agree).2 _ _ takes special).2 fun _ _ => false⟩

end Site
end StridedViews
