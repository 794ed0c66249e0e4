import Mathlib.Data.List.Nodup
import Mathlib.Data.Option.Defs
import StridedViews.Proofs.Dispatch.Service

/-!
What a site remembers does not show. Where the parts of an operation and the raise handler are functions
of their arguments, each remembered cast, also that there is none, is like the one that the operation
would make now, so a site answers as a new one does. The same site with a record of the casts that its
operation makes goes on as without it, and asks for the cast of no position twice.
-/

namespace StridedViews

variable {σ α β : Type}

/-! ### Results that do not depend on the host -/

/-- Whether what a handler raises depends on the kind and the text only. -/
def RaiseHandler.Steady (raise : RaiseHandler σ) : Prop :=
  ∀ kind text s s', (raise kind text s).1 = (raise kind text s').1

/-- Whether two casts have the same results, in any states of the host, with any steady handler. -/
def Cast.Alike (cast cast' : Cast σ) : Prop :=
  ∀ raise : RaiseHandler σ, raise.Steady → ∀ v s s', (cast v raise s).1 = (cast' v raise s').1

theorem alike_cases {found found' : Option (Cast σ)} (h : Option.Rel Cast.Alike found found') :
    found = none ∧ found' = none ∨
      ∃ cast cast', found = some cast ∧ found' = some cast' ∧ Cast.Alike cast cast' := by
  cases h with
  | none => exact .inl ⟨rfl, rfl⟩
  | some h => exact .inr ⟨_, _, rfl, rfl, h⟩

/-- An operation whose results depend on its arguments only. What its parts do to the host is free. -/
structure Operation.Steady (operation : Operation σ) : Prop where
  makeCast : ∀ position s s',
    Option.Rel Cast.Alike (operation.makeCast position s).1 (operation.makeCast position s').1
  call : ∀ args s s', (operation.call args s).1 = (operation.call args s').1
  callScalars : ∀ args s s', (operation.callScalars args s).1 = (operation.callScalars args s').1

/-- Whether two programs have the same results in any states of the host. -/
def Agree (x y : ExceptT Raised (StateM σ) α) : Prop := ∀ s s', (x.run s).1 = (y.run s').1

namespace Agree

theorem pure (a : α) : Agree (Pure.pure a : ExceptT Raised (StateM σ) α) (Pure.pure a) :=
  fun _ _ => rfl

theorem bind {x y : ExceptT Raised (StateM σ) α} {f g : α → ExceptT Raised (StateM σ) β}
    (h : Agree x y) (hf : ∀ a, Agree (f a) (g a)) : Agree (x >>= f) (y >>= g) := by
  intro s s'
  change (ExceptT.bindCont f (x.run s).1 (x.run s).2).1 =
    (ExceptT.bindCont g (y.run s').1 (y.run s').2).1
  rw [h s s']
  cases (y.run s').1 with
  | error raised => rfl
  | ok a => exact hf a _ _

theorem mapM {f g : α → ExceptT Raised (StateM σ) β} (h : ∀ a, Agree (f a) (g a)) (l : List α) :
    Agree (l.mapM f) (l.mapM g) := by
  induction l with
  | nil => exact .pure []
  | cons a rest ih =>
    rw [List.mapM_cons, List.mapM_cons]
    exact (h a).bind fun b => ih.bind fun bs => .pure (b :: bs)

end Agree

theorem CastSpec.alike_toCast (spec : CastSpec) (position : Nat) :
    Cast.Alike (σ := σ) (spec.toCast position) (spec.toCast position) := by
  intro raise hraise v s s'
  have happly (c : Coercion) (w : Value) :
      (c.apply w raise s).1 = (c.apply w raise s').1 := by
    unfold Coercion.apply
    cases c.coerce w with
    | ok _ => rfl
    | error refusal => exact congrArg Except.error (hraise _ _ s s')
  unfold CastSpec.toCast
  cases v with
  | noValue =>
    cases spec.default? with
    | none => exact congrArg Except.error (hraise _ _ s s')
    | some default => rfl
  | _ => exact happly _ _

/-- The operation of any declaration is steady. -/
theorem Builtin.steady_toOperation (b : Builtin) : (b.toOperation : Operation σ).Steady where
  makeCast position _ _ := by
    change Option.Rel Cast.Alike ((b.casts[position]?).join.map _) ((b.casts[position]?).join.map _)
    cases (b.casts[position]?).join with
    | none => exact .none
    | some spec => exact .some (spec.alike_toCast position)
  call _ _ _ := rfl
  callScalars _ _ _ := by
    unfold toOperation
    cases b.specialized? <;> rfl

/-! ### Remembered casts -/

/-- Whether each remembered cast, or that there is none, is what the operation would give now. -/
def SiteMemory.Faithful (m : SiteMemory σ) (operation : Operation σ) : Prop :=
  ∀ p made, m.casts p = some made → ∀ s, Option.Rel Cast.Alike made (operation.makeCast p s).1

namespace Site

variable {site : Site σ} {m : SiteMemory σ}

/-- The cast that a site finds is the one that a new site makes. -/
theorem castFor_alike (steady : site.operation.Steady) (faithful : m.Faithful site.operation)
    (position : Nat) (s s' : σ) :
    Option.Rel Cast.Alike (site.castFor m.casts position s).1
      (site.castFor (fun _ => none) position s').1 := by
  cases h : m.casts position with
  | some made =>
    rw [castFor_of_known site s h]
    exact faithful position made h s'
  | none =>
    have hmake : site.castFor m.casts position = site.operation.makeCast position := by
      unfold castFor
      rw [h]
    rw [hmake]
    exact steady.makeCast position s s'

theorem faithful_serveAll (steady : site.operation.Steady) (requests : List Request) (s : σ) :
    ((site.serveAll requests).memory .empty s).Faithful site.operation := by
  refine site.serveAll_keeps (P := fun m => m.Faithful site.operation) ?_ ?_ requests _ s ?_
  · intro m s position faithful p made hmade s'
    obtain h | ⟨rfl, rfl⟩ := (site.casts_learn_castFor m s).mp hmade
    · exact faithful p made h s'
    · exact castFor_alike steady faithful p s s'
  · intro m stats _ faithful
    exact faithful
  · intro p made h
    cases h

section Results

variable (steady : site.operation.Steady) (hraise : site.raise.Steady)
  (faithful : m.Faithful site.operation)
include steady hraise faithful

theorem agree_castArg (arg : Value × Nat) :
    Agree (site.castArg m.casts arg) (site.castArg (fun _ => none) arg) := by
  obtain ⟨v, position⟩ := arg
  intro s s'
  obtain ⟨hmade, hmade'⟩ | ⟨cast, cast', hmade, hmade', halike⟩ :=
    alike_cases (castFor_alike steady faithful position s s')
  · rw [run_castArg_of_none site s hmade, run_castArg_of_none site s' hmade']
  · rw [run_castArg_of_some site s hmade, run_castArg_of_some site s' hmade']
    exact halike site.raise hraise v _ _

theorem agree_generic (args : List Value) :
    Agree (site.generic m.casts args) (site.generic (fun _ => none) args) :=
  (Agree.mapM (agree_castArg steady hraise faithful) args.zipIdx).bind fun coerced =>
    steady.call coerced

theorem result_call_eq (args : List Value) (s s' : σ) :
    (site.call args).result m s = (site.call args).result .empty s' := by
  simp only [SiteM.result_eq_run', run'_call]
  exact congrArg (Except.mapError DispatchError.raised) (agree_generic steady hraise faithful args s s')

theorem result_execute_eq (args : List Scalar) (wanted : ScalarKind) (s s' : σ) :
    (site.execute args wanted).result m s = (site.execute args wanted).result .empty s' := by
  simp only [SiteM.result_eq_run']
  cases h : site.operation.takes args with
  | true =>
    simp only [run'_execute_of_takes site h]
    exact congrArg (fun r => r.mapError DispatchError.raised >>= fun p =>
      expected (p.ofKind? wanted) p.toValue) (steady.callScalars args s s')
  | false =>
    simp only [run'_execute_of_not_takes site h]
    exact congrArg (fun r => r.mapError DispatchError.raised >>= fun v =>
      expected (Scalar.narrow? wanted v) v)
      (agree_generic steady hraise faithful (args.map Scalar.toValue) s s')

/-- A site answers any request as a new one does. -/
theorem result_serve_eq (r : Request) (s s' : σ) :
    (site.serve r).result m s = (site.serve r).result .empty s' := by
  cases r with
  | call args => exact congrArg (Reply.ofExcept .value) (result_call_eq steady hraise faithful args s s')
  | callDynamic args =>
    change Reply.ofExcept .value ((site.callDynamic args).result m s) =
      Reply.ofExcept .value ((site.callDynamic args).result .empty s')
    unfold callDynamic
    split
    · rw [result_call_eq steady hraise faithful args s s']
    · rfl
  | execute args wanted =>
    exact congrArg (Reply.ofExcept .scalar)
      (result_execute_eq steady hraise faithful args wanted s s')
  | dispatch args wanted =>
    change Reply.ofExcept .dispatched ((site.dispatch args wanted).result m s) =
      Reply.ofExcept .dispatched ((site.dispatch args wanted).result .empty s')
    rw [result_dispatch, result_dispatch, result_execute_eq steady hraise faithful args wanted s s']
  | hasCast position =>
    have hfound : (site.castFor m.casts position s).1.isSome =
        (site.castFor (fun _ => none) position s').1.isSome := by
      obtain ⟨h, h'⟩ | ⟨cast, cast', h, h', -⟩ :=
        alike_cases (castFor_alike steady faithful position s s')
      · rw [h, h']
      · rw [h, h']
        rfl
    change Reply.flag ((site.hasCast position).result m s) =
      Reply.flag ((site.hasCast position).result .empty s')
    unfold hasCast
    split
    · simp only [SiteM.result_bind, result_cast]
      exact congrArg Reply.flag hfound
    · rfl

end Results

end Site

/-! ### A record of the casts that are made -/

/-- A program of a host, in a host that keeps a record beside its state. -/
def beside (x : StateM σ α) : StateM (σ × List Nat) α := fun h => ((x h.1).1, ((x h.1).2, h.2))

/-- A handler of a host with a record, as one of the host alone. -/
def RaiseHandler.without (raise : RaiseHandler (σ × List Nat)) (record : List Nat) :
    RaiseHandler σ :=
  fun kind text s => ((raise kind text (s, record)).1, (raise kind text (s, record)).2.1)

/-- A cast in a host with a record. -/
def Cast.recording (cast : Cast σ) : Cast (σ × List Nat) :=
  fun v raise h => beside (cast v (raise.without h.2)) h

/-- An operation that records each position for which it makes a cast. -/
def Operation.recording (operation : Operation σ) : Operation (σ × List Nat) where
  name := operation.name
  makeCast position := fun h =>
    ((operation.makeCast position h.1).1.map Cast.recording,
      ((operation.makeCast position h.1).2, h.2 ++ [position]))
  accepts := operation.accepts
  call args := beside (operation.call args)
  callScalars args := beside (operation.callScalars args)

/-- A site whose operation records the casts that it makes. -/
def Site.recording (site : Site σ) : Site (σ × List Nat) where
  operation := site.operation.recording
  arity := site.arity
  raise kind text := beside (site.raise kind text)

/-- The memory of such a site. -/
def SiteMemory.recording (m : SiteMemory σ) : SiteMemory (σ × List Nat) :=
  ⟨fun p => (m.casts p).map (Option.map Cast.recording), m.stats⟩

/-- Whether a record holds the positions that a memory knows, each of them once. -/
structure SiteMemory.Recorded (m : SiteMemory σ) (record : List Nat) : Prop where
  nodup : record.Nodup
  mem_iff : ∀ p, p ∈ record ↔ (m.casts p).isSome

/-- Whether a step of a site with a record does what a step of the site does, up to the form of the
result, and keeps the record true. -/
def Follows (form : α → β) (y : SiteM (σ × List Nat) β) (x : SiteM σ α) : Prop :=
  ∀ m s record, m.Recorded record →
    ∃ record', (x.memory m s).Recorded record' ∧
      y.run m.recording (s, record) =
        ((form (x.result m s), (x.memory m s).recording), (x.host m s, record'))

namespace Follows

variable {γ δ : Type}

theorem pure (a : α) : Follows (σ := σ) id (Pure.pure a) (Pure.pure a) :=
  fun _ _ record h => ⟨record, h, rfl⟩

theorem bind {form : α → β} {form' : γ → δ} {y : SiteM (σ × List Nat) β} {x : SiteM σ α}
    {g : β → SiteM (σ × List Nat) δ} {f : α → SiteM σ γ} (h : Follows form y x)
    (hf : ∀ a, Follows form' (g (form a)) (f a)) : Follows form' (y >>= g) (x >>= f) := by
  intro m s record hrecord
  obtain ⟨record₁, hrecord₁, hy⟩ := h m s record hrecord
  obtain ⟨record₂, hrecord₂, hg⟩ := hf (x.result m s) (x.memory m s) (x.host m s) record₁ hrecord₁
  refine ⟨record₂, hrecord₂, ?_⟩
  rw [StateT.run_bind]
  change (g (y.run m.recording (s, record)).1.1).run (y.run m.recording (s, record)).1.2
    (y.run m.recording (s, record)).2 = _
  rw [hy]
  exact hg

theorem map (form : α → β) {y : SiteM (σ × List Nat) α} {x : SiteM σ α} (h : Follows id y x) :
    Follows id (do return form (← y)) (do return form (← x)) :=
  h.bind fun a => .pure (form a)

theorem count (f : DispatchStats → DispatchStats) :
    Follows (σ := σ) id (Site.count f) (Site.count f) :=
  fun _ _ record h => ⟨record, ⟨h.nodup, h.mem_iff⟩, rfl⟩

theorem lift (x : StateM σ α) :
    Follows id (monadLift (beside x) : SiteM (σ × List Nat) α) (monadLift x : SiteM σ α) :=
  fun _ _ record h => ⟨record, h, rfl⟩

end Follows

namespace Site

variable (site : Site σ)

theorem learn_recording (m : SiteMemory σ) (position : Nat) (made : Option (Cast σ)) :
    m.recording.learn position (made.map Cast.recording) =
      (m.learn position made).recording := by
  unfold SiteMemory.learn
  cases h : m.casts position with
  | some found =>
    have hknown : m.recording.casts position = some (found.map Cast.recording) := by
      simp [SiteMemory.recording, h]
    rw [hknown]
  | none =>
    have hknown : m.recording.casts position = none := by simp [SiteMemory.recording, h]
    rw [hknown]
    have hcasts (p : Nat) :
        (if p = position then some (made.map Cast.recording) else m.recording.casts p) =
          (if p = position then some made else m.casts p).map (Option.map Cast.recording) := by
      split <;> rfl
    simp only [SiteMemory.recording, Option.isSome_map] at hcasts ⊢
    simp only [hcasts]

/-- A cast is made for a position that the record does not hold, or found. -/
theorem follows_cast (position : Nat) :
    Follows (Option.map Cast.recording) (site.recording.cast position) (site.cast position) := by
  intro m s record hrecord
  simp only [SiteM.run_eq, result_cast, memory_cast, host_cast]
  cases h : m.casts position with
  | some made =>
    have hfound : site.recording.castFor m.recording.casts position (s, record) =
        (made.map Cast.recording, (s, record)) :=
      castFor_of_known _ _ (by simp [SiteMemory.recording, h])
    refine ⟨record, ?_, ?_⟩
    · rwa [SiteMemory.learn_of_known h]
    · rw [hfound, castFor_of_known site s h, learn_recording]
  | none =>
    have hmade : site.castFor m.casts position s = site.operation.makeCast position s := by
      simp only [castFor, h]
    have hmade' : site.recording.castFor m.recording.casts position (s, record) =
        ((site.operation.makeCast position s).1.map Cast.recording,
          ((site.operation.makeCast position s).2, record ++ [position])) := by
      have hunknown : m.recording.casts position = none := by simp [SiteMemory.recording, h]
      simp only [castFor, hunknown]
      rfl
    refine ⟨record ++ [position], ⟨?_, fun p => ?_⟩, ?_⟩
    · refine List.Nodup.append hrecord.nodup (List.nodup_singleton _) ?_
      intro p hp hp'
      rw [List.mem_singleton.mp hp', hrecord.mem_iff, h] at hp
      cases hp
    · rw [List.mem_append, List.mem_singleton, hrecord.mem_iff]
      by_cases hp : p = position
      · subst hp
        simp [SiteMemory.casts_learn_self h]
      · simp [SiteMemory.casts_learn_of_ne hp, hp]
    · rw [hmade', hmade, learn_recording]

theorem follows_castFrom (args : List Value) : ∀ position,
    Follows id (site.recording.castFrom position args) (site.castFrom position args) := by
  induction args with
  | nil => exact fun _ => .pure _
  | cons v rest ih =>
    intro position
    refine (site.follows_cast position).bind fun made => ?_
    rcases made with _ | cast
    on_goal 1 => refine (Follows.pure (Except.ok v)).bind ?_
    on_goal 2 => refine (Follows.lift (cast v site.raise)).bind ?_
    all_goals
      intro casted
      cases casted with
      | error raised => exact .pure _
      | ok w =>
        refine (ih (position + 1)).bind fun others => ?_
        cases others <;> exact .pure _

theorem follows_call (args : List Value) :
    Follows id (site.recording.call args) (site.call args) := by
  refine (Follows.count _).bind fun _ => (site.follows_castFrom args 0).bind fun casted => ?_
  cases casted with
  | error raised => exact .pure _
  | ok coerced =>
    exact (Follows.lift (site.operation.call coerced)).map (Except.mapError DispatchError.raised)

theorem follows_expect (narrowed : Option Scalar) (value : Value) :
    Follows (σ := σ) id (expect narrowed value) (expect narrowed value) := by
  cases narrowed with
  | some s => exact .pure _
  | none => exact (Follows.count _).bind fun _ => .pure _

theorem follows_execute (args : List Scalar) (wanted : ScalarKind) :
    Follows id (site.recording.execute args wanted) (site.execute args wanted) := by
  have haccepts : site.recording.acceptsFrom 0 args = site.acceptsFrom 0 args := by
    rw [acceptsFrom_eq, acceptsFrom_eq]
    rfl
  unfold execute
  rw [haccepts]
  cases site.acceptsFrom 0 args with
  | true =>
    refine (Follows.count _).bind fun _ => (Follows.lift (site.operation.callScalars args)).bind ?_
    intro outcome
    cases outcome with
    | error raised => exact .pure _
    | ok result => exact follows_expect _ _
  | false =>
    refine (site.follows_call (args.map Scalar.toValue)).bind fun outcome => ?_
    cases outcome with
    | error e => exact .pure _
    | ok value => exact follows_expect _ _

theorem follows_dispatch (args : List Scalar) (wanted : ScalarKind) :
    Follows id (site.recording.dispatch args wanted) (site.dispatch args wanted) := by
  refine (site.follows_execute args wanted).bind fun outcome => ?_
  rcases outcome with (raised | value | ⟨expected, actual⟩) | result
  · exact .pure _
  · exact .pure _
  · exact .pure _
  · exact .pure _

theorem follows_hasCast (position : Nat) :
    Follows id (site.recording.hasCast position) (site.hasCast position) := by
  unfold hasCast
  change Follows id (if position < site.arity then _ else _) _
  split
  · refine (site.follows_cast position).bind fun made => ?_
    cases made with
    | none => exact .pure _
    | some cast => exact .pure _
  · exact .pure _

theorem follows_callDynamic (args : List Value) :
    Follows id (site.recording.callDynamic args) (site.callDynamic args) := by
  unfold callDynamic
  change Follows id (if args.length = site.arity then _ else _) _
  split
  · exact site.follows_call args
  · exact .pure _

/-- A request to a site with a record goes as one to the site without it. -/
theorem follows_serve (r : Request) : Follows id (site.recording.serve r) (site.serve r) := by
  cases r with
  | call args => exact (site.follows_call args).map (Reply.ofExcept .value)
  | callDynamic args => exact (site.follows_callDynamic args).map (Reply.ofExcept .value)
  | execute args wanted => exact (site.follows_execute args wanted).map (Reply.ofExcept .scalar)
  | dispatch args wanted => exact (site.follows_dispatch args wanted).map (Reply.ofExcept .dispatched)
  | hasCast position => exact (site.follows_hasCast position).map Reply.flag

theorem follows_serveAll (requests : List Request) :
    Follows id (site.recording.serveAll requests) (site.serveAll requests) := by
  unfold serveAll
  induction requests with
  | nil => exact .pure _
  | cons r rest ih =>
    rw [List.mapM_cons, List.mapM_cons]
    exact (site.follows_serve r).bind fun reply => ih.bind fun replies => .pure _

/-- A site answers each request as a new site does, whatever it served before, also where it failed on
its way or was asked about a cast. Beside a record of the casts that the operation makes it goes on as
without one, and the record holds each position that the site knows once. -/
theorem memo_transparent (site : Site σ) (steady : site.operation.Steady)
    (hraise : site.raise.Steady) (earlier : List Request) (next : Request) (s : σ) :
    (∀ s', (site.serve next).result ((site.serveAll earlier).memory .empty s)
        ((site.serveAll earlier).host .empty s) = (site.serve next).result .empty s') ∧
      let all := site.serveAll (earlier ++ [next])
      ∃ record : List Nat, record.Nodup ∧
        (∀ p, p ∈ record ↔ ((all.memory .empty s).casts p).isSome) ∧
        (site.recording.serveAll (earlier ++ [next])).run .empty (s, []) =
          ((all.result .empty s, (all.memory .empty s).recording), (all.host .empty s, record)) := by
  refine ⟨fun s' => ?_, ?_⟩
  · exact result_serve_eq steady hraise (faithful_serveAll steady earlier s) next _ s'
  · have hempty : (SiteMemory.empty : SiteMemory σ).Recorded [] :=
      ⟨List.nodup_nil, fun p => by simp [SiteMemory.empty]⟩
    obtain ⟨record, hrecord, hrun⟩ := site.follows_serveAll (earlier ++ [next]) .empty s [] hempty
    exact ⟨record, hrecord.nodup, hrecord.mem_iff, hrun⟩

/-- A site in a host that counts the casts that are made, and each raised error tenfold. -/
def countingFirst : Site Nat where
  operation :=
    { (Builtin.bare (.arg 0)).toOperation with
      makeCast := fun p n => ((if p = 0 then some (CastSpec.toCast ⟨.int, none⟩ p) else none), n + 1) }
  arity := 2
  raise := fun kind text n => (⟨kind, text⟩, n + 10)

theorem memo_transparent_countingFirst :
    countingFirst.operation.Steady ∧ countingFirst.raise.Steady ∧
      let earlier := [.call [.str "x", .int 1], .hasCast 1, .call [.int 5, .int 1], .call [.none, .none]]
      let site := countingFirst.serveAll earlier
      site.host .empty 0 = 22 ∧
        (countingFirst.serve (.dispatch [.bool true, .long 7] .int)).result
          (site.memory .empty 0) (site.host .empty 0) = .dispatched (.scalar (.int 1)) :=
  have steady : countingFirst.operation.Steady :=
    { makeCast := fun p _ _ => by
        change Option.Rel Cast.Alike (if p = 0 then some _ else none) (if p = 0 then some _ else none)
        split
        · exact .some (CastSpec.alike_toCast _ p)
        · exact .none
      call := fun _ _ _ => rfl
      callScalars := fun _ _ _ => rfl }
  have raises : countingFirst.raise.Steady := fun _ _ _ _ => rfl
  ⟨steady, raises, rfl, (memo_transparent countingFirst steady raises _ _ 0).1 7⟩

end Site
end StridedViews
