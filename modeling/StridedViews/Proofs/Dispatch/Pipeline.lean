import StridedViews.Proofs.Dispatch.Service
import StridedViews.Proofs.Fallible

/-!
The generic entry as a pipeline. What the declared cast of a position makes of an argument is a value,
or the kind and the text of an error (`coercedAt`); the host has no say in it. A call takes its
arguments through their casts from left to right. If all pass, it is the operation on what they were
coerced to; otherwise it is the host's handler on the error of the first that does not pass
(`Site.call_coerces`).

What is done on the way shows in a twin of the site whose host keeps a log (`Site.traced`). Both the
site and its twin have declared casts that tell the host first what they are asked, in one case
nothing and in the other case an entry of the log, so the lemmas are about casts that tell.
-/

namespace StridedViews

variable {σ α : Type}

/-! ### One argument -/

/-- The values of the domain that an argument is coerced to. -/
def Coercion.Admits : Coercion → Value → Prop
  | int, .int i => -2147483648 ≤ i.toInt ∧ i.toInt ≤ 2147483647
  | long, .int _ | index, .int _ | double, .float _ | bool, .bool _ | passthrough, _ => True
  | _, _ => False

/-- What is coerced lies in the domain. -/
theorem Coercion.admits_of_coerce {c : Coercion} {v w : Value} (h : c.coerce v = .ok w) :
    c.Admits w := by
  cases c with
  | passthrough => trivial
  | bool =>
    cases h
    trivial
  | int =>
    cases v with
    | int i =>
      rw [coerce] at h
      split at h
      · next hfits =>
        cases h
        simpa [fitsInt32, Admits] using hfits
      · cases h
    | bool b =>
      cases h
      cases b <;> simp [Value.ofTruth, Admits]
    | _ => cases h
  | long | index | double => cases v <;> cases h <;> trivial

/-- What the declared cast of a position makes of an argument, or the kind and the text of the error
that it raises. -/
def CastSpec.coerce (spec : CastSpec) (position : Nat) (v : Value) :
    Except (ErrorKind × String) Value :=
  match v, spec.default? with
  | .noValue, some default => .ok default
  | .noValue, none => .error (.typeError, s!"missing required argument at position {position}")
  | v, _ => (spec.coercion.coerce v).mapError Coercion.Refusal.cause

/-- What comes out of a declared cast lies in its domain, provided that its default does, if that is
what comes out. -/
theorem CastSpec.admits_of_coerce {spec : CastSpec} {position : Nat} {v w : Value}
    (h : spec.coerce position v = .ok w)
    (hdefault : ∀ d, v = .noValue → spec.default? = some d → spec.coercion.Admits d) :
    spec.coercion.Admits w := by
  unfold coerce at h
  split at h
  · next default hsome =>
    cases h
    exact hdefault _ rfl hsome
  · cases h
  · exact Coercion.admits_of_coerce (mapError_eq_ok_iff.mp h)

/-- Raises an error through the host's handler. -/
def RaiseHandler.fail (raise : RaiseHandler σ) (cause : ErrorKind × String) :
    StateM σ (Except Raised α) :=
  fun s => (.error (raise cause.1 cause.2 s).1, (raise cause.1 cause.2 s).2)

/-- A standard cast raises once, or does nothing to the host. -/
theorem CastSpec.run_toCast (spec : CastSpec) (position : Nat) (v : Value) (raise : RaiseHandler σ)
    (s : σ) :
    spec.toCast position v raise s =
      match spec.coerce position v with
      | .ok w => (.ok w, s)
      | .error cause => raise.fail cause s := by
  have happly (c : Coercion) (u : Value) : c.apply u raise s =
      match (c.coerce u).mapError Coercion.Refusal.cause with
      | .ok w => (.ok w, s)
      | .error cause => raise.fail cause s := by
    unfold Coercion.apply
    cases c.coerce u <;> rfl
  unfold toCast coerce
  cases v with
  | noValue => cases spec.default? <;> rfl
  | _ => exact happly _ _

/-- An argument after the declared cast of its position, if there is one. -/
def coercedAt (specs : Nat → Option CastSpec) (arg : Value × Nat) :
    Except (ErrorKind × String) Value :=
  match specs arg.2 with
  | none => .ok arg.1
  | some spec => spec.coerce arg.2 arg.1

/-! ### Casts that tell the host what they are asked -/

section Telling

variable (tell : Nat → Value → σ → σ) (specs : Nat → Option CastSpec)

/-- The standard cast of a position, if one is declared, which tells the host what it is asked. -/
def tellingCast (position : Nat) : Option (Cast σ) :=
  (specs position).map fun spec v raise s => spec.toCast position v raise (tell position v s)

/-- The host after it was told of an argument, if a cast is declared for it. -/
def told (arg : Value × Nat) (s : σ) : σ :=
  if (specs arg.2).isSome then tell arg.2 arg.1 s else s

/-- The host after it was told of some arguments in turn. -/
def toldAll (args : List (Value × Nat)) (s : σ) : σ :=
  args.foldl (fun s arg => told tell specs arg s) s

/-- An operation makes the casts of its specifications. -/
def Operation.Declares (operation : Operation σ) : Prop :=
  ∀ position, operation.makeCast position = pure (tellingCast tell specs position)

/-- All that is remembered are the casts of the specifications. -/
def SiteMemory.KnowsOnly (m : SiteMemory σ) : Prop :=
  ∀ position made, m.casts position = some made → made = tellingCast tell specs position

end Telling

/-- Standard casts tell nothing. -/
theorem Operation.declares_of_standardCasts {operation : Operation σ} {specs : Nat → Option CastSpec}
    (h : operation.makeCast = standardCasts specs) : operation.Declares (fun _ _ s => s) specs := by
  intro position
  rw [h]
  rfl

namespace Site

variable {site : Site σ} {m : SiteMemory σ} {tell : Nat → Value → σ → σ}
  {specs : Nat → Option CastSpec}

theorem castFor_eq (hsite : site.operation.Declares tell specs) (hm : m.KnowsOnly tell specs)
    (position : Nat) : site.castFor m.casts position = pure (tellingCast tell specs position) := by
  unfold castFor
  split
  · next made hmade => rw [hm position made hmade]
  · exact hsite position

/-- Whatever a site serves, it remembers the declared casts only. -/
theorem knowsOnly_serveAll (hsite : site.operation.Declares tell specs) (requests : List Request)
    (s : σ) : ((site.serveAll requests).memory .empty s).KnowsOnly tell specs := by
  refine site.serveAll_keeps (P := fun m => m.KnowsOnly tell specs) ?_ ?_ requests _ s ?_
  · intro m s position hm p made hmade
    rcases (site.casts_learn_castFor m s).mp hmade with hknown | ⟨rfl, rfl⟩
    · exact hm p made hknown
    · rw [castFor_eq hsite hm]
      rfl
  · intro m stats _ hm
    exact hm
  · intro p made h
    cases h

section Casting

variable (hsite : site.operation.Declares tell specs) (hm : m.KnowsOnly tell specs)
include hsite hm

theorem run_castArg (arg : Value × Nat) (s : σ) :
    (site.castArg m.casts arg).run s =
      match coercedAt specs arg with
      | .ok w => (.ok w, told tell specs arg s)
      | .error cause => site.raise.fail cause (told tell specs arg s) := by
  obtain ⟨v, position⟩ := arg
  have hfor := castFor_eq hsite hm position
  unfold coercedAt told
  cases hspec : specs position with
  | none =>
    have hnone : (site.castFor m.casts position s).1 = none := by
      rw [hfor, tellingCast, hspec]
      rfl
    rw [run_castArg_of_none site s hnone, hfor]
    rfl
  | some spec =>
    have hsome : (site.castFor m.casts position s).1 =
        some fun v raise s => spec.toCast position v raise (tell position v s) := by
      rw [hfor, tellingCast, hspec]
      rfl
    rw [run_castArg_of_some site s hsome, hfor]
    exact spec.run_toCast position v site.raise (tell position v s)

/-- Arguments that all pass come out as they are coerced, and the host has only been told. -/
theorem run_castArgs_of_ok {args : List (Value × Nat)} {coerced : List Value}
    (h : List.Forall₂ (fun arg w => coercedAt specs arg = .ok w) args coerced) (s : σ) :
    (args.mapM (site.castArg m.casts)).run s = (.ok coerced, toldAll tell specs args s) := by
  induction h generalizing s with
  | nil => rfl
  | @cons arg w args coerced harg _ ih =>
    have hrun := run_castArg hsite hm arg s
    rw [harg] at hrun
    rw [List.mapM_cons, run_bind_of_ok hrun, run_bind_of_ok (ih _)]
    rfl

/-- At the first argument that does not pass, its error is raised, and no later one is looked at. -/
theorem run_castArgs_of_error {before after : List (Value × Nat)} {arg : Value × Nat}
    {cause : ErrorKind × String} (hbefore : ∀ a ∈ before, ∃ w, coercedAt specs a = .ok w)
    (harg : coercedAt specs arg = .error cause) (s : σ) :
    ((before ++ arg :: after).mapM (site.castArg m.casts)).run s =
      site.raise.fail cause (toldAll tell specs (before ++ [arg]) s) := by
  induction before generalizing s with
  | nil =>
    have hrun := run_castArg hsite hm arg s
    rw [harg] at hrun
    rw [List.nil_append, List.mapM_cons, run_bind_of_error hrun]
    rfl
  | cons a before ih =>
    obtain ⟨w, hw⟩ := hbefore a (List.mem_cons_self ..)
    have hrun := run_castArg hsite hm a s
    rw [hw] at hrun
    have hrest := ih (fun b hb => hbefore b (List.mem_cons_of_mem _ hb)) (told tell specs a s)
    rw [List.cons_append, List.mapM_cons, run_bind_of_ok hrun, run_bind_of_error hrest]
    rfl

/-! ### One call -/

/-- A call whose arguments all pass is the operation on what they were coerced to. -/
theorem run'_call_of_ok {args coerced : List Value}
    (h : List.Forall₂ (fun arg w => coercedAt specs arg = .ok w) args.zipIdx coerced) (s : σ) :
    (site.call args).run' m s =
      let ended := site.operation.call coerced (toldAll tell specs args.zipIdx s)
      (ended.1.mapError .raised, ended.2) := by
  have hrun : (site.generic m.casts args).run s =
      site.operation.call coerced (toldAll tell specs args.zipIdx s) := by
    rw [generic, run_bind_of_ok (run_castArgs_of_ok hsite hm h s)]
    rfl
  rw [run'_call]
  change (Except.mapError DispatchError.raised ((site.generic m.casts args).run s).1,
    ((site.generic m.casts args).run s).2) = _
  rw [hrun]

/-- A call is the host's handler on the error of the first argument that does not pass. -/
theorem run'_call_of_error {args : List Value} {before after : List (Value × Nat)}
    {arg : Value × Nat} {cause : ErrorKind × String} (hargs : args.zipIdx = before ++ arg :: after)
    (hbefore : ∀ a ∈ before, ∃ w, coercedAt specs a = .ok w)
    (harg : coercedAt specs arg = .error cause) (s : σ) :
    (site.call args).run' m s =
      let ended := site.raise cause.1 cause.2 (toldAll tell specs (before ++ [arg]) s)
      (.error (.raised ended.1), ended.2) := by
  have hrun : (site.generic m.casts args).run s =
      site.raise.fail cause (toldAll tell specs (before ++ [arg]) s) := by
    have hcasts : ((before ++ arg :: after).mapM (site.castArg m.casts)).run s = _ :=
      run_castArgs_of_error hsite hm hbefore harg s
    rw [RaiseHandler.fail] at hcasts
    rw [generic, hargs, run_bind_of_error hcasts, RaiseHandler.fail]
  rw [run'_call]
  change (Except.mapError DispatchError.raised ((site.generic m.casts args).run s).1,
    ((site.generic m.casts args).run s).2) = _
  rw [hrun]
  rfl

end Casting

end Site

/-! ### Which argument fails first -/

section Arguments

variable {specs : Nat → Option CastSpec} {args coerced : List Value}

/-- Every argument of a call passes the cast of its position, if there is one. -/
def Passes (specs : Nat → Option CastSpec) (args coerced : List Value) : Prop :=
  List.Forall₂ (fun arg w => coercedAt specs arg = .ok w) args.zipIdx coerced

/-- The argument at position `k` is the first of a call that does not pass. -/
structure FailsFirst (specs : Nat → Option CastSpec) (args : List Value) (k : Nat)
    (cause : ErrorKind × String) : Prop where
  here : ∃ v, args[k]? = some v ∧ coercedAt specs (v, k) = .error cause
  before : ∀ j v, j < k → args[j]? = some v → ∃ w, coercedAt specs (v, j) = .ok w

theorem Passes.getElem? (h : Passes specs args coerced) {k : Nat} {v w : Value}
    (hv : args[k]? = some v) (hw : coerced[k]? = some w) : coercedAt specs (v, k) = .ok w := by
  have hk : args.zipIdx[k]? = some (v, k) := by simp [hv]
  obtain ⟨hlt, harg⟩ := List.getElem?_eq_some_iff.mp hk
  obtain ⟨hlt', hcoerced⟩ := List.getElem?_eq_some_iff.mp hw
  have hpassed := List.Forall₂.get h hlt hlt'
  simp only [List.get_eq_getElem] at hpassed
  rwa [harg, hcoerced] at hpassed

/-- Whatever comes out of a declared cast lies in its domain. -/
theorem Passes.admits (h : Passes specs args coerced) {k : Nat} {v w : Value} {spec : CastSpec}
    (hv : args[k]? = some v) (hw : coerced[k]? = some w) (hspec : specs k = some spec)
    (hdefault : ∀ d, v = .noValue → spec.default? = some d → spec.coercion.Admits d) :
    spec.coercion.Admits w := by
  have hpassed := h.getElem? hv hw
  rw [coercedAt, hspec] at hpassed
  exact CastSpec.admits_of_coerce hpassed hdefault

theorem FailsFirst.split {k : Nat} {cause : ErrorKind × String} (h : FailsFirst specs args k cause) :
    ∃ v after, args.zipIdx = args.zipIdx.take k ++ (v, k) :: after ∧
      args.zipIdx.take (k + 1) = args.zipIdx.take k ++ [(v, k)] ∧
      (∀ a ∈ args.zipIdx.take k, ∃ w, coercedAt specs a = .ok w) ∧
      coercedAt specs (v, k) = .error cause := by
  obtain ⟨v, hv, hcause⟩ := h.here
  have hk : args.zipIdx[k]? = some (v, k) := by simp [hv]
  obtain ⟨hlt, hget⟩ := List.getElem?_eq_some_iff.mp hk
  refine ⟨v, args.zipIdx.drop (k + 1), ?_, ?_, ?_, hcause⟩
  · rw [← hget, List.getElem_cons_drop, List.take_append_drop]
  · rw [List.take_add_one, hk]
    rfl
  · intro a ha
    obtain ⟨j, hj⟩ := List.mem_iff_getElem?.mp ha
    rw [List.getElem?_take] at hj
    split at hj
    · next hjk =>
      rw [List.getElem?_zipIdx, Nat.zero_add] at hj
      obtain ⟨u, hu, rfl⟩ := Option.map_eq_some_iff.mp hj
      exact h.before j u hjk hu
    · cases hj

/-- Either all arguments pass, or one is the first that does not. -/
theorem passes_or_failsFirst (specs : Nat → Option CastSpec) (args : List Value) :
    (∃ coerced, Passes specs args coerced) ∨ ∃ k cause, FailsFirst specs args k cause := by
  cases hall : args.zipIdx.mapM (coercedAt specs) with
  | ok coerced => exact .inl ⟨coerced, mapM_eq_ok_iff.mp hall⟩
  | error cause =>
    obtain ⟨before, ⟨v, n⟩, after, hsplit, hbefore, harg⟩ := exists_first_of_mapM_eq_error hall
    have hget (j : Nat) : (before ++ (v, n) :: after)[j]? = args[j]?.map fun u => (u, j) := by
      rw [← hsplit, List.getElem?_zipIdx, Nat.zero_add]
    have hhere := hget before.length
    rw [List.getElem?_append_right (Nat.le_refl _), Nat.sub_self, List.getElem?_cons_zero] at hhere
    obtain ⟨u, hu, heq⟩ := Option.map_eq_some_iff.mp hhere.symm
    cases heq
    refine .inr ⟨before.length, cause, ⟨_, hu, harg⟩, fun j w hj hw => ?_⟩
    have hpassed := hget j
    rw [List.getElem?_append_left hj, hw] at hpassed
    exact hbefore _ (List.mem_of_getElem? hpassed)

end Arguments

/-! ### What a call does on its way -/

/-- What shows of a call beside its result. -/
inductive CallEvent where
  /-- The declared cast of a position is asked to cast a value. -/
  | cast (position : Nat) (v : Value)
  /-- The host's handler is asked to raise an error. -/
  | raised (kind : ErrorKind) (text : String)
  /-- The operation is called. -/
  | called (args : List Value)

/-- A step of a host, which adds some events to the log of the host. -/
def noted (events : List CallEvent) (x : StateM σ α) : StateM (σ × List CallEvent) α :=
  fun state => ((x state.1).1, ((x state.1).2, state.2 ++ events))

/-- The log after a cast was asked. -/
def noteCast (position : Nat) (v : Value) (state : σ × List CallEvent) : σ × List CallEvent :=
  (state.1, state.2 ++ [.cast position v])

/-- The casts that some arguments are given to. -/
def castEvents (specs : Nat → Option CastSpec) (args : List (Value × Nat)) : List CallEvent :=
  (args.filter fun arg => (specs arg.2).isSome).map fun arg => .cast arg.2 arg.1

/-- The same site in a host that keeps a log of the casts, the raised errors and the calls of the
operation. -/
def Site.traced (site : Site σ) (specs : Nat → Option CastSpec) : Site (σ × List CallEvent) where
  operation :=
    { name := site.operation.name
      makeCast := fun position => pure (tellingCast noteCast specs position)
      accepts := site.operation.accepts
      call := fun args => noted [.called args] (site.operation.call args)
      callScalars := fun args => noted [] (site.operation.callScalars args) }
  arity := site.arity
  raise := fun kind text => noted [.raised kind text] (site.raise kind text)

theorem toldAll_silent (specs : Nat → Option CastSpec) (args : List (Value × Nat)) (s : σ) :
    toldAll (fun _ _ s => s) specs args s = s := by
  induction args with
  | nil => rfl
  | cons arg args ih => simp [toldAll, told]

theorem toldAll_noteCast (specs : Nat → Option CastSpec) (args : List (Value × Nat)) (s : σ)
    (log : List CallEvent) :
    toldAll noteCast specs args (s, log) = (s, log ++ castEvents specs args) := by
  induction args generalizing log with
  | nil => simp [toldAll, castEvents]
  | cons arg args ih =>
    rw [toldAll, List.foldl_cons]
    unfold told
    cases hspec : (specs arg.2).isSome with
    | true =>
      refine (ih _).trans ?_
      simp [castEvents, hspec]
    | false =>
      refine (ih _).trans ?_
      simp [castEvents, hspec]

/-- A call of an operation whose casts are the standard ones of some specifications, whatever the site
served before and however the host stands.
* If every argument passes, then the result is that of the operation on exactly what the arguments
  were coerced to, and the host is left as it leaves it. On the way each declared cast was asked once,
  from left to right, and then the operation was called once; no error was raised through the host's
  handler. What the operation gets at the position of a declared cast lies in the domain of the cast,
  provided that its default does, if that was taken.
* If an argument is the first that does not pass, then the result is exactly what the handler makes of
  its error, and the host is left as the handler leaves it. The casts were asked up to this position,
  the handler was asked once, and the operation was not called.
* One of the two is the case. -/
theorem Site.call_coerces (site : Site σ) {specs : Nat → Option CastSpec}
    (hspecs : site.operation.makeCast = Operation.standardCasts specs) (args : List Value)
    (earlier : List Request) (s₀ s : σ) (log₀ log : List CallEvent) :
    let m := (site.serveAll earlier).memory .empty s₀
    let traced := site.traced specs
    let t := (traced.serveAll earlier).memory .empty (s₀, log₀)
    (∀ coerced, Passes specs args coerced →
      let ended := site.operation.call coerced s
      (site.call args).run' m s = (ended.1.mapError .raised, ended.2) ∧
        (traced.call args).run' t (s, log) =
          (ended.1.mapError .raised,
            (ended.2, log ++ castEvents specs args.zipIdx ++ [.called coerced])) ∧
        ∀ k v w spec, args[k]? = some v → coerced[k]? = some w → specs k = some spec →
          (∀ d, v = .noValue → spec.default? = some d → spec.coercion.Admits d) →
          spec.coercion.Admits w) ∧
    (∀ k kind text, FailsFirst specs args k (kind, text) →
      let ended := site.raise kind text s
      (site.call args).run' m s = (.error (.raised ended.1), ended.2) ∧
        (traced.call args).run' t (s, log) =
          (.error (.raised ended.1),
            (ended.2, log ++ castEvents specs (args.zipIdx.take (k + 1)) ++ [.raised kind text]))) ∧
    ((∃ coerced, Passes specs args coerced) ∨ ∃ k cause, FailsFirst specs args k cause) := by
  intro m traced t
  have hsite := Operation.declares_of_standardCasts hspecs
  have hm : m.KnowsOnly (fun _ _ s => s) specs := knowsOnly_serveAll hsite earlier s₀
  have htraced : traced.operation.Declares noteCast specs := fun _ => rfl
  have ht : t.KnowsOnly noteCast specs := knowsOnly_serveAll htraced earlier (s₀, log₀)
  refine ⟨fun coerced hpasses => ⟨?_, ?_, ?_⟩, fun k kind text hfails => ?_,
    passes_or_failsFirst specs args⟩
  · rw [run'_call_of_ok hsite hm hpasses, toldAll_silent]
  · rw [run'_call_of_ok htraced ht hpasses, toldAll_noteCast]
    rfl
  · intro k v w spec hv hw hspec hdefault
    exact hpasses.admits hv hw hspec hdefault
  · obtain ⟨v, after, hsplit, htake, hbefore, hcause⟩ := hfails.split
    constructor
    · rw [run'_call_of_error hsite hm hsplit hbefore hcause, toldAll_silent]
    · rw [run'_call_of_error htraced ht hsplit hbefore hcause, toldAll_noteCast, htake]
      rfl

/-- The specifications of an operation whose first argument is an integer of 32 bits, and whose third
one is 7 if it is not given. -/
def thirdSpecs (position : Nat) : Option CastSpec :=
  [some ⟨.int, none⟩, none, some ⟨.long, some (.int 7)⟩][position]?.join

/-- A site that returns its third argument, in a host that counts the errors it raises. -/
def thirdOf : Site Nat where
  operation :=
    { (Builtin.bare (.arg 2)).toOperation with makeCast := Operation.standardCasts thirdSpecs }
  arity := 3
  raise := fun kind text n => (⟨kind, text⟩, n + 1)

/-- The first call passes. The second one fails at its first argument, so that its third one, which
would fail too, is not asked. -/
theorem Site.call_coerces_thirdOf :
    ((thirdOf.traced thirdSpecs).call [.bool true, .str "x", .noValue]).run' .empty (5, []) =
      (.ok (.int 7),
        (5, [.cast 0 (.bool true), .cast 2 .noValue, .called [.int 1, .str "x", .int 7]])) ∧
    (thirdOf.call [.none, .str "x", .none]).run' .empty 5 =
      (.error (.raised ⟨.typeError, "integer argument expected, got NoneType"⟩), 6) := by
  have hpasses : Passes thirdSpecs [.bool true, .str "x", .noValue] [.int 1, .str "x", .int 7] :=
    .cons rfl (.cons rfl (.cons rfl .nil))
  have hfails : FailsFirst thirdSpecs [.none, .str "x", .none] 0
      (.typeError, "integer argument expected, got NoneType") :=
    ⟨⟨.none, rfl, rfl⟩, fun j _ hj => absurd hj (Nat.not_lt_zero j)⟩
  have hpassed := (call_coerces thirdOf rfl [.bool true, .str "x", .noValue] [] 5 5 [] []).1 _ hpasses
  have hfailed := (call_coerces thirdOf rfl [.none, .str "x", .none] [] 5 5 [] []).2.1 0 _ _ hfails
  exact ⟨hpassed.2.1, hfailed.1⟩

end StridedViews
