import StridedViews.Dispatch.Request
import StridedViews.Proofs.Dispatch.Routes

/-!
Sites in service. A step of a site returns a result and leaves a memory and a state of the host
behind. What a site remembers changes in one way only, it learns the cast of a position that it did
not know, so `castFrom_keeps` and `serveAll_keeps` pass on whatever learning and counting keep. The history
of a site says of each request what was known and how the host stood before it was served.
-/

namespace StridedViews

variable {σ α β : Type}

/-! ### Steps -/

namespace SiteM

/-- What a step returns. -/
def result (x : SiteM σ α) (m : SiteMemory σ) (s : σ) : α := (x.run m s).1.1

/-- The memory that a step leaves. -/
def memory (x : SiteM σ α) (m : SiteMemory σ) (s : σ) : SiteMemory σ := (x.run m s).1.2

/-- The state of the host that a step leaves. -/
def host (x : SiteM σ α) (m : SiteMemory σ) (s : σ) : σ := (x.run m s).2

variable (m : SiteMemory σ) (s : σ)

theorem run_eq (x : SiteM σ α) : x.run m s = ((x.result m s, x.memory m s), x.host m s) := rfl

theorem result_eq_run' (x : SiteM σ α) : x.result m s = (x.run' m s).1 := rfl

@[simp] theorem result_pure (a : α) : (pure a : SiteM σ α).result m s = a := rfl
@[simp] theorem memory_pure (a : α) : (pure a : SiteM σ α).memory m s = m := rfl
@[simp] theorem host_pure (a : α) : (pure a : SiteM σ α).host m s = s := rfl

section Bind

variable (x : SiteM σ α) (f : α → SiteM σ β)

@[simp] theorem result_bind :
    (x >>= f).result m s = (f (x.result m s)).result (x.memory m s) (x.host m s) := rfl

@[simp] theorem memory_bind :
    (x >>= f).memory m s = (f (x.result m s)).memory (x.memory m s) (x.host m s) := rfl

@[simp] theorem host_bind :
    (x >>= f).host m s = (f (x.result m s)).host (x.memory m s) (x.host m s) := rfl

end Bind

section Lift

variable (x : StateM σ α)

@[simp] theorem result_lift : (monadLift x : SiteM σ α).result m s = (x s).1 := rfl
@[simp] theorem memory_lift : (monadLift x : SiteM σ α).memory m s = m := rfl
@[simp] theorem host_lift : (monadLift x : SiteM σ α).host m s = (x s).2 := rfl

end Lift

@[simp] theorem result_count (f : DispatchStats → DispatchStats) :
    (Site.count f : SiteM σ Unit).result m s = () := rfl

@[simp] theorem memory_count (f : DispatchStats → DispatchStats) :
    (Site.count f : SiteM σ Unit).memory m s = { m with stats := f m.stats } := rfl

@[simp] theorem host_count (f : DispatchStats → DispatchStats) :
    (Site.count f : SiteM σ Unit).host m s = s := rfl

end SiteM

/-! ### Learning -/

namespace SiteMemory

variable {m : SiteMemory σ} {position p : Nat} {made found : Option (Cast σ)}

theorem learn_of_known (h : m.casts position = some found) : m.learn position made = m := by
  unfold learn
  rw [h]

theorem casts_learn_self (h : m.casts position = none) :
    (m.learn position made).casts position = some made := by
  unfold learn
  rw [h]
  exact if_pos rfl

/-- Learning counts nothing but a cast that was made. -/
theorem stats_learn (m : SiteMemory σ) (position : Nat) (made : Option (Cast σ)) :
    ∃ n, (m.learn position made).stats = { m.stats with castsMade := n } := by
  unfold learn
  split
  · exact ⟨m.stats.castsMade, rfl⟩
  · cases made with
    | none => exact ⟨m.stats.castsMade, rfl⟩
    | some cast => exact ⟨m.stats.castsMade + 1, rfl⟩

end SiteMemory

namespace Site

variable (site : Site σ) (m : SiteMemory σ) (s : σ)

theorem castFor_of_known {known : KnownCasts σ} {position : Nat} {made : Option (Cast σ)}
    (h : known position = some made) : site.castFor known position s = (made, s) := by
  unfold castFor
  rw [h]
  rfl

/-- What a site knows after it asked for the cast of a position: what it knew, and the answer. -/
theorem casts_learn_castFor {position p : Nat} {made : Option (Cast σ)} :
    (m.learn position (site.castFor m.casts position s).1).casts p = some made ↔
      m.casts p = some made ∨ p = position ∧ (site.castFor m.casts position s).1 = made := by
  by_cases hp : p = position
  · subst hp
    cases h : m.casts p with
    | some found =>
      rw [SiteMemory.learn_of_known h, h, castFor_of_known site s h]
      simp
    | none =>
      rw [SiteMemory.casts_learn_self h]
      simp
  · rw [SiteMemory.casts_learn_of_ne hp]
    simp [hp]

theorem result_cast (position : Nat) :
    (site.cast position).result m s = (site.castFor m.casts position s).1 := by
  rw [SiteM.result, run_cast]
  rfl

theorem memory_cast (position : Nat) :
    (site.cast position).memory m s =
      m.learn position (site.castFor m.casts position s).1 := by
  rw [SiteM.memory, run_cast]
  rfl

theorem host_cast (position : Nat) :
    (site.cast position).host m s = (site.castFor m.casts position s).2 := by
  rw [SiteM.host, run_cast]
  rfl

/-! ### Casting -/

theorem run_castArg_of_none {known : KnownCasts σ} {position : Nat} {v : Value}
    (h : (site.castFor known position s).1 = none) :
    (site.castArg known (v, position)).run s = (.ok v, (site.castFor known position s).2) := by
  have hfound : site.castFor known position s = (none, (site.castFor known position s).2) :=
    Prod.ext h rfl
  simp only [castArg, ExceptT.run_mk, bind, StateT.bind]
  rw [hfound]
  rfl

theorem run_castArg_of_some {known : KnownCasts σ} {position : Nat} {v : Value} {cast : Cast σ}
    (h : (site.castFor known position s).1 = some cast) :
    (site.castArg known (v, position)).run s =
      cast v site.raise (site.castFor known position s).2 := by
  have hfound : site.castFor known position s = (some cast, (site.castFor known position s).2) :=
    Prod.ext h rfl
  simp only [castArg, ExceptT.run_mk, bind, StateT.bind]
  rw [hfound]

section Casting

variable {m s} {position : Nat} {v : Value} {rest : List Value} {after : σ}

/-- Casting stops at an argument that does not pass, but has asked for its cast. -/
theorem memory_castFrom_of_error {raised : Raised}
    (h : (site.castArg m.casts (v, position)).run s = (.error raised, after)) :
    (site.castFrom position (v :: rest)).memory m s =
      m.learn position (site.castFor m.casts position s).1 := by
  simp only [castFrom, SiteM.memory_bind, result_cast, memory_cast, host_cast]
  cases hmade : (site.castFor m.casts position s).1 with
  | none =>
    rw [run_castArg_of_none site s hmade] at h
    cases h
  | some cast =>
    rw [run_castArg_of_some site s hmade] at h
    rw [SiteM.memory_bind, SiteM.result_lift, h]
    rfl

/-- Casting goes on after an argument that passes. -/
theorem memory_castFrom_of_ok {w : Value}
    (h : (site.castArg m.casts (v, position)).run s = (.ok w, after)) :
    (site.castFrom position (v :: rest)).memory m s =
      (site.castFrom (position + 1) rest).memory
        (m.learn position (site.castFor m.casts position s).1) after := by
  simp only [castFrom, SiteM.memory_bind, result_cast, memory_cast, host_cast]
  cases hmade : (site.castFor m.casts position s).1 with
  | none =>
    rw [run_castArg_of_none site s hmade] at h
    cases h
    simp only [SiteM.memory_bind, SiteM.result_pure, SiteM.memory_pure, SiteM.host_pure]
    -- Once the rest is cast, only the result is put together.
    cases (site.castFrom (position + 1) rest).result (m.learn position none)
      (site.castFor m.casts position s).2 <;> rfl
  | some cast =>
    rw [run_castArg_of_some site s hmade] at h
    rw [SiteM.memory_bind, SiteM.result_lift, SiteM.memory_lift, SiteM.host_lift, h]
    simp only [SiteM.memory_bind]
    cases (site.castFrom (position + 1) rest).result (m.learn position (some cast)) after <;> rfl

end Casting

/-- What learning keeps, casting keeps. -/
theorem castFrom_keeps {P : SiteMemory σ → Prop}
    (learns : ∀ m s position, P m → P (m.learn position (site.castFor m.casts position s).1))
    (args : List Value) :
    ∀ position m s, P m → P ((site.castFrom position args).memory m s) := by
  induction args with
  | nil =>
    intro position m s h
    exact h
  | cons v rest ih =>
    intro position m s h
    have hasked := learns m s position h
    rcases hrun : (site.castArg m.casts (v, position)).run s with ⟨raised | w, after⟩
    · rw [memory_castFrom_of_error site hrun]
      exact hasked
    · rw [memory_castFrom_of_ok site hrun]
      exact ih _ _ _ hasked

/-! ### Requests -/

/-- Whether an outcome is a result of another kind than the wanted one. -/
def isUnexpected {α : Type} : Except DispatchError α → Bool
  | .error (.unexpectedResult _) => true
  | _ => false

theorem isUnexpected_mapError_raised {α : Type} (r : Except Raised α) :
    isUnexpected (r.mapError .raised) = false := by
  cases r <;> rfl

/-- A memory after a dispatch with an outcome. -/
def noting (outcome : Except DispatchError Scalar) : SiteMemory σ :=
  { m with stats := { m.stats with
      unexpectedResults := m.stats.unexpectedResults + (isUnexpected outcome).toNat } }

theorem memory_call (args : List Value) :
    (site.call args).memory m s =
      (site.castFrom 0 args).memory
        { m with stats := { m.stats with genericCalls := m.stats.genericCalls + 1 } } s := by
  simp only [call, SiteM.memory_bind, SiteM.memory_count, SiteM.host_count]
  cases (site.castFrom 0 args).result
    { m with stats := { m.stats with genericCalls := m.stats.genericCalls + 1 } } s <;> rfl

/-- The generic entry has no wish about its result, so it finds none unexpected. -/
theorem isUnexpected_call (args : List Value) :
    isUnexpected ((site.call args).result m s) = false := by
  rw [SiteM.result_eq_run', run'_call]
  exact isUnexpected_mapError_raised _

theorem memory_expect (narrowed : Option Scalar) (value : Value) :
    (expect narrowed value).memory m s = noting m ((expect narrowed value).result m s) := by
  cases narrowed <;> rfl

/-- The memory of a site that ran the implementation that scalars go to. -/
def routed (args : List Scalar) : SiteMemory σ :=
  if site.operation.takes args then
    { m with stats := { m.stats with specializedCalls := m.stats.specializedCalls + 1 } }
  else (site.call (args.map Scalar.toValue)).memory m s

theorem memory_execute (args : List Scalar) (wanted : ScalarKind) :
    (site.execute args wanted).memory m s =
      noting (site.routed m s args) ((site.execute args wanted).result m s) := by
  have htakes : site.acceptsFrom 0 args = site.operation.takes args := acceptsFrom_eq site args 0
  unfold execute routed
  rw [htakes]
  cases site.operation.takes args with
  | true =>
    simp only [if_true, SiteM.memory_bind, SiteM.result_bind, SiteM.memory_count, SiteM.host_count,
      SiteM.result_lift, SiteM.memory_lift, SiteM.host_lift]
    cases (site.operation.callScalars args s).1 with
    | error raised => rfl
    | ok result => exact memory_expect _ _ _ _
  | false =>
    have hcall := site.isUnexpected_call m s (args.map Scalar.toValue)
    simp only [Bool.false_eq_true, if_false, SiteM.memory_bind, SiteM.result_bind]
    cases hresult : (site.call (args.map Scalar.toValue)).result m s with
    | error e =>
      rw [hresult] at hcall
      cases e with
      | raised raised => rfl
      | unexpectedResult value => cases hcall
      | arity expected actual => rfl
    | ok value => exact memory_expect _ _ _ _

/-- Unexpected results are caught, and nothing else is done to what the implementation returns. -/
theorem result_dispatch (args : List Scalar) (wanted : ScalarKind) :
    (site.dispatch args wanted).result m s = caught ((site.execute args wanted).result m s) := by
  rw [SiteM.result_eq_run', run'_dispatch]
  rfl

theorem memory_dispatch (args : List Scalar) (wanted : ScalarKind) :
    (site.dispatch args wanted).memory m s = (site.execute args wanted).memory m s := by
  rw [dispatch, SiteM.memory_bind]
  rcases (site.execute args wanted).result m s with (_ | _ | _) | _ <;> rfl

theorem memory_hasCast (position : Nat) :
    (site.hasCast position).memory m s =
      if position < site.arity then m.learn position (site.castFor m.casts position s).1 else m := by
  unfold hasCast
  split
  · rw [SiteM.memory_bind, memory_cast]
    rfl
  · rfl

theorem memory_serve (r : Request) :
    (site.serve r).memory m s =
      match r with
      | .call args => (site.call args).memory m s
      | .callDynamic args => if args.length = site.arity then (site.call args).memory m s else m
      | .execute args wanted | .dispatch args wanted => (site.execute args wanted).memory m s
      | .hasCast position => (site.hasCast position).memory m s := by
  cases r with
  | call args => rfl
  | callDynamic args =>
    have hrun : (site.serve (.callDynamic args)).memory m s =
        (site.callDynamic args).memory m s := rfl
    rw [hrun]
    by_cases h : args.length = site.arity <;> simp [callDynamic, h]
  | execute args wanted => rfl
  | dispatch args wanted => exact site.memory_dispatch m s args wanted
  | hasCast position => rfl

/-- What learning and counting keep, a request keeps. -/
theorem serve_keeps {P : SiteMemory σ → Prop}
    (learns : ∀ m s position, P m → P (m.learn position (site.castFor m.casts position s).1))
    (counts : ∀ (m : SiteMemory σ) (stats : DispatchStats),
      stats.castsMade = m.stats.castsMade → P m → P { m with stats })
    (r : Request) (h : P m) : P ((site.serve r).memory m s) := by
  have hcall (args : List Value) : P ((site.call args).memory m s) := by
    rw [memory_call]
    exact site.castFrom_keeps learns args _ _ _ (counts _ _ rfl h)
  have hexecute (args : List Scalar) (wanted : ScalarKind) :
      P ((site.execute args wanted).memory m s) := by
    rw [memory_execute]
    refine counts _ _ rfl ?_
    unfold routed
    split
    · exact counts _ _ rfl h
    · exact hcall _
  rw [memory_serve]
  cases r with
  | call args => exact hcall args
  | callDynamic args =>
    dsimp only
    split
    · exact hcall args
    · exact h
  | execute args wanted => exact hexecute args wanted
  | dispatch args wanted => exact hexecute args wanted
  | hasCast position =>
    dsimp only
    rw [memory_hasCast]
    split
    · exact learns _ _ _ h
    · exact h

/-! ### Histories -/

section Histories

variable (r : Request) (rest : List Request)

theorem result_serveAll_cons :
    (site.serveAll (r :: rest)).result m s =
      (site.serve r).result m s ::
        (site.serveAll rest).result ((site.serve r).memory m s) ((site.serve r).host m s) := by
  rw [serveAll, List.mapM_cons]
  rfl

theorem memory_serveAll_cons :
    (site.serveAll (r :: rest)).memory m s =
      (site.serveAll rest).memory ((site.serve r).memory m s) ((site.serve r).host m s) := by
  rw [serveAll, List.mapM_cons]
  rfl

end Histories

/-- What learning and counting keep, requests keep. -/
theorem serveAll_keeps {P : SiteMemory σ → Prop}
    (learns : ∀ m s position, P m → P (m.learn position (site.castFor m.casts position s).1))
    (counts : ∀ (m : SiteMemory σ) (stats : DispatchStats),
      stats.castsMade = m.stats.castsMade → P m → P { m with stats })
    (requests : List Request) : ∀ m s, P m → P ((site.serveAll requests).memory m s) := by
  induction requests with
  | nil =>
    intro m s h
    exact h
  | cons r rest ih =>
    intro m s h
    rw [memory_serveAll_cons]
    exact ih _ _ (site.serve_keeps m s learns counts r h)

end Site

/-- One request in the life of a site: what the site knew and how the host stood before it, and the
reply. -/
structure Served (σ : Type) where
  request : Request
  known : KnownCasts σ
  before : σ
  reply : Reply

/-- The history of a site that serves requests in order. -/
def Site.history (site : Site σ) : List Request → SiteMemory σ → σ → List (Served σ)
  | [], _, _ => []
  | r :: rest, m, s =>
    ⟨r, m.casts, s, (site.serve r).result m s⟩ ::
      site.history rest ((site.serve r).memory m s) ((site.serve r).host m s)

namespace Site

variable (site : Site σ)

theorem history_requests (requests : List Request) :
    ∀ m s, (site.history requests m s).map Served.request = requests := by
  induction requests with
  | nil => intro _ _; rfl
  | cons r rest ih =>
    intro m s
    rw [history, List.map_cons, ih]

theorem history_replies (requests : List Request) :
    ∀ m s, (site.history requests m s).map Served.reply = (site.serveAll requests).result m s := by
  induction requests with
  | nil => intro _ _; rfl
  | cons r rest ih =>
    intro m s
    rw [history, List.map_cons, ih, result_serveAll_cons]

end Site
end StridedViews
