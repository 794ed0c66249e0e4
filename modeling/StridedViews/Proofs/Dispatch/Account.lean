import Mathlib.Data.Finset.Card
import Mathlib.Data.Finset.Range
import StridedViews.Proofs.Dispatch.Service
import StridedViews.Proofs.Fallible

/-!
What a site counts. The counters of a site are an exact account of its history: which requests went to
which entry, which of them gave a result of another kind than the wanted one, and at how many positions
a cast was found. A position is asked by a generic call that passed the casts of all positions before
it, also if it stops there.
-/

namespace StridedViews

variable {σ : Type}

/-- Whether a request gives a site as many arguments as it takes. A call of the generic entry with any
number of arguments and a question about a position always fit. -/
def Request.Fits (arity : Nat) : Request → Prop
  | .call args => args.length = arity
  | .execute args _ | .dispatch args _ => args.length = arity
  | .callDynamic _ | .hasCast _ => True

/-- Whether a dispatch ended in a result of another kind than the wanted one, as an error or as an
answer. -/
def Served.isUnexpected (x : Served σ) : Bool :=
  match x.request, x.reply with
  | .execute .., .failed (.unexpectedResult _) => true
  | .dispatch .., .dispatched (.generic _) => true
  | _, _ => false

namespace Site

variable (site : Site σ)

/-- Whether a request goes to the specialised entry. -/
def isSpecialized : Request → Bool
  | .execute args _ | .dispatch args _ => site.operation.takes args
  | _ => false

/-- The arguments with which a request goes to the generic entry. -/
def genericArgs : Request → Option (List Value)
  | .call args => some args
  | .callDynamic args => if args.length = site.arity then some args else none
  | .execute args _ | .dispatch args _ =>
      if site.operation.takes args then none else some (args.map Scalar.toValue)
  | .hasCast _ => none

/-- Whether casting arguments from a position on gets as far as `p` and finds `made` there: all arguments
before it pass. -/
def Reaches (known : KnownCasts σ) (position : Nat) (args : List Value) (s : σ) (p : Nat)
    (made : Option (Cast σ)) : Prop :=
  ∃ n < args.length, p = position + n ∧ ∃ passed after,
    (((args.zipIdx position).take n).mapM (site.castArg known)).run s = (.ok passed, after) ∧
      (site.castFor known p after).1 = made

/-- Whether a request asks for the cast of `p` and finds `made`. -/
def Asks (x : Served σ) (p : Nat) (made : Option (Cast σ)) : Prop :=
  match x.request with
  | .hasCast position =>
      position = p ∧ p < site.arity ∧ (site.castFor x.known p x.before).1 = made
  | r => ∃ args, site.genericArgs r = some args ∧ site.Reaches x.known 0 args x.before p made

/-! ### Which positions are asked -/

section Reaching

variable {known : KnownCasts σ} {position p : Nat} {v : Value} {rest : List Value} {s : σ}
  {made : Option (Cast σ)}

theorem not_reaches_nil : ¬site.Reaches known position [] s p made := by
  rintro ⟨n, hn, -⟩
  exact Nat.not_lt_zero n hn

/-- The first position is asked at once, the others after the first argument has passed. -/
theorem reaches_cons :
    site.Reaches known position (v :: rest) s p made ↔
      p = position ∧ (site.castFor known position s).1 = made ∨
        ∃ w after, (site.castArg known (v, position)).run s = (.ok w, after) ∧
          site.Reaches known (position + 1) rest after p made := by
  constructor
  · rintro ⟨n, hn, rfl, passed, after, hrun, hmade⟩
    cases n with
    | zero =>
      cases hrun
      exact .inl ⟨rfl, hmade⟩
    | succ n =>
      rw [List.zipIdx_cons, List.take_succ_cons, List.mapM_cons, run_bind_eq_ok_iff] at hrun
      obtain ⟨w, s', hfirst, hrest⟩ := hrun
      obtain ⟨ws, s'', hrest, hend⟩ := run_bind_eq_ok_iff.mp hrest
      cases hend
      exact .inr ⟨w, s', hfirst, n, Nat.lt_of_succ_lt_succ hn, by omega, ws, _, hrest, hmade⟩
  · rintro (⟨rfl, hmade⟩ | ⟨w, s', hfirst, n, hn, rfl, ws, s'', hrest, hmade⟩)
    · exact ⟨0, Nat.zero_lt_succ _, rfl, [], s, rfl, hmade⟩
    · refine ⟨n + 1, Nat.succ_lt_succ hn, by omega, w :: ws, s'', ?_, hmade⟩
      rw [List.zipIdx_cons, List.take_succ_cons, List.mapM_cons]
      exact run_bind_eq_ok_iff.mpr ⟨w, s', hfirst, run_bind_eq_ok_iff.mpr ⟨ws, s'', hrest, rfl⟩⟩

/-- Only the casts of the positions ahead matter. -/
theorem reaches_congr {known' : KnownCasts σ} (args : List Value) :
    ∀ position s, (∀ q, position ≤ q → known q = known' q) →
      (site.Reaches known position args s p made ↔ site.Reaches known' position args s p made) := by
  induction args with
  | nil =>
    intro position s _
    exact iff_of_false site.not_reaches_nil site.not_reaches_nil
  | cons v rest ih =>
    intro position s h
    have hfor : site.castFor known position = site.castFor known' position := by
      simp only [castFor, h position (Nat.le_refl _)]
    have harg : site.castArg known (v, position) = site.castArg known' (v, position) := by
      simp only [castArg, hfor]
    have hrest (after : σ) := ih (position + 1) after fun q hq => h q (by omega)
    simp only [reaches_cons, hfor, harg, hrest]

end Reaching

/-- What a site knows after casting: what it knew, and what it was told at the positions it asked. -/
theorem casts_castFrom {p : Nat} {made : Option (Cast σ)} (args : List Value) :
    ∀ position m s, ((site.castFrom position args).memory m s).casts p = some made ↔
      m.casts p = some made ∨ site.Reaches m.casts position args s p made := by
  induction args with
  | nil =>
    intro position m s
    exact (or_iff_left site.not_reaches_nil).symm
  | cons v rest ih =>
    intro position m s
    rw [reaches_cons]
    have hasked : (m.learn position (site.castFor m.casts position s).1).casts p = some made ↔
        m.casts p = some made ∨ p = position ∧ (site.castFor m.casts position s).1 = made :=
      site.casts_learn_castFor m s
    rcases hrun : (site.castArg m.casts (v, position)).run s with ⟨raised | w, after⟩
    · rw [memory_castFrom_of_error site hrun, hasked]
      refine or_congr_right (or_iff_left ?_).symm
      rintro ⟨_, _, h, -⟩
      cases h
    · have hahead : site.Reaches (m.learn position (site.castFor m.casts position s).1).casts
          (position + 1) rest after p made ↔
          site.Reaches m.casts (position + 1) rest after p made :=
        site.reaches_congr rest (position + 1) after fun q hq =>
          SiteMemory.casts_learn_of_ne (by omega)
      rw [memory_castFrom_of_ok site hrun, ih, hasked, hahead, or_assoc]
      refine or_congr_right (or_congr_right ⟨fun h => ⟨w, after, rfl, h⟩, ?_⟩)
      rintro ⟨_, _, h, hrest⟩
      cases h
      exact hrest

theorem casts_call {p : Nat} {made : Option (Cast σ)} (args : List Value) (m : SiteMemory σ) (s : σ) :
    ((site.call args).memory m s).casts p = some made ↔
      m.casts p = some made ∨ site.Reaches m.casts 0 args s p made := by
  rw [memory_call]
  exact site.casts_castFrom args 0 _ s

/-- Scalars that the specialised entry takes ask for no cast. -/
theorem casts_execute {p : Nat} {made : Option (Cast σ)} (args : List Scalar) (wanted : ScalarKind)
    (m : SiteMemory σ) (s : σ) :
    ((site.execute args wanted).memory m s).casts p = some made ↔
      m.casts p = some made ∨ site.operation.takes args = false ∧
        site.Reaches m.casts 0 (args.map Scalar.toValue) s p made := by
  have hnoted : ((site.execute args wanted).memory m s).casts = (site.routed m s args).casts := by
    rw [memory_execute]
    rfl
  rw [hnoted, routed]
  cases site.operation.takes args with
  | true => simp
  | false => simpa using site.casts_call (args.map Scalar.toValue) m s

/-- What a site knows after a request: what it knew, and what it was told. -/
theorem casts_serve {p : Nat} {made : Option (Cast σ)} (m : SiteMemory σ) (s : σ) (r : Request)
    (reply : Reply) :
    ((site.serve r).memory m s).casts p = some made ↔
      m.casts p = some made ∨ site.Asks ⟨r, m.casts, s, reply⟩ p made := by
  rw [memory_serve]
  cases r with
  | call args => simpa [Asks, genericArgs] using site.casts_call args m s
  | callDynamic args =>
    by_cases h : args.length = site.arity
    · simpa [Asks, genericArgs, h] using site.casts_call args m s
    · simp [Asks, genericArgs, h]
  | execute args wanted =>
    cases h : site.operation.takes args <;>
      simpa [Asks, genericArgs, h] using site.casts_execute args wanted m s
  | dispatch args wanted =>
    cases h : site.operation.takes args <;>
      simpa [Asks, genericArgs, h] using site.casts_execute args wanted m s
  | hasCast position =>
    dsimp only [Asks]
    rw [memory_hasCast]
    split
    · next h =>
      rw [casts_learn_castFor]
      refine or_congr_right ⟨?_, ?_⟩
      · rintro ⟨rfl, hmade⟩
        exact ⟨rfl, h, hmade⟩
      · rintro ⟨rfl, -, hmade⟩
        exact ⟨rfl, hmade⟩
    · next h =>
      refine (or_iff_left ?_).symm
      rintro ⟨rfl, hlt, -⟩
      exact h hlt

/-- A request that fits asks for casts of the site's own positions only. -/
theorem Asks.lt {x : Served σ} {p : Nat} {made : Option (Cast σ)} (h : site.Asks x p made)
    (fits : x.request.Fits site.arity) : p < site.arity := by
  have hlt {args : List Value} (hr : site.Reaches x.known 0 args x.before p made)
      (hlen : args.length = site.arity) : p < site.arity := by
    obtain ⟨n, hn, hp, -⟩ := hr
    omega
  rcases x with ⟨args | args | ⟨args, wanted⟩ | ⟨args, wanted⟩ | position, known, s, reply⟩
  · obtain ⟨_, hargs, hr⟩ := h
    cases hargs
    exact hlt hr fits
  · obtain ⟨_, hargs, hr⟩ := h
    obtain ⟨hlen, hargs⟩ := Option.ite_none_right_eq_some.mp hargs
    cases hargs
    exact hlt hr hlen
  · obtain ⟨_, hargs, hr⟩ := h
    obtain ⟨-, hargs⟩ := Option.ite_none_left_eq_some.mp hargs
    cases hargs
    exact hlt hr ((List.length_map _).trans fits)
  · obtain ⟨_, hargs, hr⟩ := h
    obtain ⟨-, hargs⟩ := Option.ite_none_left_eq_some.mp hargs
    cases hargs
    exact hlt hr ((List.length_map _).trans fits)
  · exact h.2.1

/-! ### What is counted -/

/-- Casting counts nothing but the casts that it makes. -/
theorem stats_castFrom (position : Nat) (args : List Value) (m : SiteMemory σ) (s : σ) :
    ∃ n, ((site.castFrom position args).memory m s).stats = { m.stats with castsMade := n } := by
  refine site.castFrom_keeps (P := fun m' => ∃ n, m'.stats = { m.stats with castsMade := n })
    ?_ args position m s ⟨_, rfl⟩
  rintro m' s' position' ⟨n, hn⟩
  obtain ⟨k, hk⟩ := m'.stats_learn position' (site.castFor m'.casts position' s').1
  exact ⟨k, by rw [hk, hn]⟩

theorem stats_call (args : List Value) (m : SiteMemory σ) (s : σ) :
    ∃ n, ((site.call args).memory m s).stats =
      { m.stats with genericCalls := m.stats.genericCalls + 1, castsMade := n } := by
  obtain ⟨n, hn⟩ := site.stats_castFrom 0 args
    { m with stats := { m.stats with genericCalls := m.stats.genericCalls + 1 } } s
  exact ⟨n, by rw [memory_call, hn]⟩

theorem stats_execute (args : List Scalar) (wanted : ScalarKind) (m : SiteMemory σ) (s : σ) :
    ∃ n, ((site.execute args wanted).memory m s).stats =
      { specializedCalls := m.stats.specializedCalls + (site.operation.takes args).toNat
        genericCalls := m.stats.genericCalls + (!site.operation.takes args).toNat
        castsMade := n
        unexpectedResults := m.stats.unexpectedResults +
          (isUnexpected ((site.execute args wanted).result m s)).toNat } := by
  rw [memory_execute, noting, routed]
  cases site.operation.takes args with
  | true => exact ⟨_, rfl⟩
  | false =>
    obtain ⟨n, hn⟩ := site.stats_call (args.map Scalar.toValue) m s
    refine ⟨n, ?_⟩
    simp only [Bool.false_eq_true, if_false, hn]
    rfl

theorem isUnexpected_served_execute (args : List Scalar) (wanted : ScalarKind) (m : SiteMemory σ)
    (s : σ) (known : KnownCasts σ) :
    Served.isUnexpected
        ⟨.execute args wanted, known, s, (site.serve (.execute args wanted)).result m s⟩ =
      isUnexpected ((site.execute args wanted).result m s) := by
  have hreply : (site.serve (.execute args wanted)).result m s =
      .ofExcept .scalar ((site.execute args wanted).result m s) := rfl
  rw [hreply]
  rcases (site.execute args wanted).result m s with (_ | _ | _) | _ <;> rfl

theorem isUnexpected_served_dispatch (args : List Scalar) (wanted : ScalarKind) (m : SiteMemory σ)
    (s : σ) (known : KnownCasts σ) :
    Served.isUnexpected
        ⟨.dispatch args wanted, known, s, (site.serve (.dispatch args wanted)).result m s⟩ =
      isUnexpected ((site.execute args wanted).result m s) := by
  have hreply : (site.serve (.dispatch args wanted)).result m s =
      .ofExcept .dispatched ((site.dispatch args wanted).result m s) := rfl
  rw [hreply, result_dispatch]
  rcases (site.execute args wanted).result m s with (_ | _ | _) | _ <;> rfl

/-- Serving a request counts its entry, what it made, and whether its result is unexpected. -/
theorem stats_serve (m : SiteMemory σ) (s : σ) (r : Request) :
    ∃ n, ((site.serve r).memory m s).stats =
      { specializedCalls := m.stats.specializedCalls + (site.isSpecialized r).toNat
        genericCalls := m.stats.genericCalls + (site.genericArgs r).isSome.toNat
        castsMade := n
        unexpectedResults := m.stats.unexpectedResults +
          (Served.isUnexpected ⟨r, m.casts, s, (site.serve r).result m s⟩).toNat } := by
  rw [memory_serve]
  cases r with
  | call args => exact site.stats_call args m s
  | callDynamic args =>
    by_cases h : args.length = site.arity
    · simp only [h, if_true, genericArgs]
      exact site.stats_call args m s
    · simp only [h, if_false, genericArgs]
      exact ⟨m.stats.castsMade, rfl⟩
  | execute args wanted =>
    obtain ⟨n, hn⟩ := site.stats_execute args wanted m s
    refine ⟨n, ?_⟩
    rw [isUnexpected_served_execute, isSpecialized, genericArgs]
    cases h : site.operation.takes args <;> simpa [h] using hn
  | dispatch args wanted =>
    obtain ⟨n, hn⟩ := site.stats_execute args wanted m s
    refine ⟨n, ?_⟩
    rw [isUnexpected_served_dispatch, isSpecialized, genericArgs]
    cases h : site.operation.takes args <;> simpa [h] using hn
  | hasCast position =>
    obtain ⟨n, hn⟩ := m.stats_learn position (site.castFor m.casts position s).1
    dsimp only
    rw [memory_hasCast]
    split
    · exact ⟨n, hn⟩
    · exact ⟨m.stats.castsMade, rfl⟩

end Site

/-- Whether a memory has counted a cast for each position at which it knows one. -/
def SiteMemory.Tallied (m : SiteMemory σ) : Prop :=
  ∃ found : Finset Nat, (∀ p, p ∈ found ↔ ∃ cast, m.casts p = some (some cast)) ∧
    m.stats.castsMade = found.card

theorem SiteMemory.Tallied.learn {m : SiteMemory σ} (h : m.Tallied) (position : Nat)
    (made : Option (Cast σ)) : (m.learn position made).Tallied := by
  cases hknown : m.casts position with
  | some found => rwa [learn_of_known hknown]
  | none =>
    obtain ⟨found, hmem, hcard⟩ := h
    have hnew : position ∉ found := by
      rw [hmem, hknown]
      rintro ⟨_, h⟩
      cases h
    cases made with
    | none =>
      refine ⟨found, fun p => ?_, ?_⟩
      · rw [hmem]
        by_cases hp : p = position
        · subst hp
          rw [casts_learn_self hknown, hknown]
          simp
        · rw [casts_learn_of_ne hp]
      · unfold SiteMemory.learn
        rw [hknown]
        exact hcard
    | some cast =>
      refine ⟨insert position found, fun p => ?_, ?_⟩
      · rw [Finset.mem_insert, hmem]
        by_cases hp : p = position
        · subst hp
          rw [casts_learn_self hknown]
          simp
        · rw [casts_learn_of_ne hp]
          simp [hp]
      · rw [Finset.card_insert_of_notMem hnew, ← hcard]
        unfold SiteMemory.learn
        rw [hknown]
        rfl

namespace Site

variable (site : Site σ)

theorem tallied_serveAll (requests : List Request) (s : σ) :
    ((site.serveAll requests).memory .empty s).Tallied := by
  refine site.serveAll_keeps (fun m s position h => h.learn position _) ?_ requests _ s
    ⟨∅, fun p => ?_, rfl⟩
  · rintro m stats hstats ⟨found, hmem, hcard⟩
    exact ⟨found, hmem, hstats.trans hcard⟩
  · simp [SiteMemory.empty]

/-- What a site knows at last is what it knew at first and what it was told in its history. -/
theorem casts_serveAll {p : Nat} {made : Option (Cast σ)} (requests : List Request) :
    ∀ m s, ((site.serveAll requests).memory m s).casts p = some made ↔
      m.casts p = some made ∨ ∃ x ∈ site.history requests m s, site.Asks x p made := by
  induction requests with
  | nil =>
    intro m s
    simp [history, serveAll]
  | cons r rest ih =>
    intro m s
    rw [memory_serveAll_cons, ih, history, casts_serve site m s r ((site.serve r).result m s),
      List.exists_mem_cons_iff, or_assoc]

/-- The counts of calls over a history. -/
theorem stats_serveAll (requests : List Request) :
    ∀ m s, ∃ n, ((site.serveAll requests).memory m s).stats =
      { specializedCalls := m.stats.specializedCalls + requests.countP site.isSpecialized
        genericCalls := m.stats.genericCalls + requests.countP fun r => (site.genericArgs r).isSome
        castsMade := n
        unexpectedResults := m.stats.unexpectedResults +
          (site.history requests m s).countP Served.isUnexpected } := by
  induction requests with
  | nil =>
    intro m s
    exact ⟨m.stats.castsMade, rfl⟩
  | cons r rest ih =>
    intro m s
    obtain ⟨n, hn⟩ := ih ((site.serve r).memory m s) ((site.serve r).host m s)
    obtain ⟨k, hk⟩ := site.stats_serve m s r
    have hcons {α : Type} (p : α → Bool) (a : α) (l : List α) (c : Nat) :
        c + (p a).toNat + l.countP p = c + (a :: l).countP p := by
      rw [List.countP_cons]
      cases p a with
      | false => rfl
      | true =>
        simp only [Bool.toNat_true, if_true]
        omega
    refine ⟨n, ?_⟩
    rw [memory_serveAll_cons, hn, hk, history, ← hcons, ← hcons, ← hcons]

/-- As many casts were made as there are positions that were asked and have one, all of them among the
site's own. -/
theorem castsMade_serveAll {requests : List Request} (fits : ∀ r ∈ requests, r.Fits site.arity)
    (s : σ) :
    ∃ found : Finset Nat,
      (∀ p, p ∈ found ↔ p < site.arity ∧
        ∃ x ∈ site.history requests .empty s, ∃ cast, site.Asks x p (some cast)) ∧
      ((site.serveAll requests).memory .empty s).stats.castsMade = found.card ∧
        found.card ≤ site.arity := by
  obtain ⟨found, hmem, hcard⟩ := site.tallied_serveAll requests s
  have hfound (p : Nat) : p ∈ found ↔ p < site.arity ∧
      ∃ x ∈ site.history requests .empty s, ∃ cast, site.Asks x p (some cast) := by
    rw [hmem]
    constructor
    · rintro ⟨cast, hcast⟩
      obtain h | ⟨x, hx, hasks⟩ := (site.casts_serveAll requests .empty s).mp hcast
      · cases h
      · have hfits : x.request.Fits site.arity :=
          fits _ (site.history_requests requests .empty s ▸ List.mem_map_of_mem hx)
        exact ⟨Asks.lt site hasks hfits, x, hx, cast, hasks⟩
    · rintro ⟨-, x, hx, cast, hasks⟩
      exact ⟨cast, (site.casts_serveAll requests .empty s).mpr (.inr ⟨x, hx, hasks⟩)⟩
  have hle : found ⊆ Finset.range site.arity := fun p hp =>
    Finset.mem_range.mpr ((hfound p).mp hp).1
  exact ⟨found, hfound, hcard, (Finset.card_le_card hle).trans_eq (Finset.card_range _)⟩

theorem run_callDynamic_of_length_ne {args : List Value} (h : args.length ≠ site.arity)
    (m : SiteMemory σ) (s : σ) :
    (site.serve (.callDynamic args)).run m s =
      ((.failed (.arity site.arity args.length), m), s) := by
  change (site.callDynamic args >>= fun r => pure (Reply.ofExcept .value r)).run m s = _
  rw [callDynamic, if_neg h]
  rfl

theorem run_hasCast_of_le {p : Nat} (h : site.arity ≤ p) (m : SiteMemory σ) (s : σ) :
    (site.serve (.hasCast p)).run m s = ((.flag false, m), s) := by
  change (site.hasCast p >>= fun b => pure (Reply.flag b)).run m s = _
  rw [hasCast, if_neg (by omega)]
  rfl

/-- The counters of a site that served requests from the start are an exact account of them. The
specialised counter counts the dispatches whose kinds are all accepted, and the generic one the requests
that went to the generic entry, also if they failed there. The unexpected results are those that the
replies show, and as many casts were made as there are positions that were asked and have one. No
counter is above the number of requests or of positions, and a request that does not reach the operation
leaves everything as it was. -/
theorem stats_account (site : Site σ) (requests : List Request)
    (fits : ∀ r ∈ requests, r.Fits site.arity) (s : σ) :
    let stats := ((site.serveAll requests).memory .empty s).stats
    let history := site.history requests .empty s
    history.map Served.request = requests ∧
      history.map Served.reply = (site.serveAll requests).result .empty s ∧
      stats.specializedCalls = requests.countP site.isSpecialized ∧
      stats.genericCalls = requests.countP (fun r => (site.genericArgs r).isSome) ∧
      stats.unexpectedResults = history.countP Served.isUnexpected ∧
      (∃ found : Finset Nat,
        (∀ p, p ∈ found ↔ p < site.arity ∧ ∃ x ∈ history, ∃ cast, site.Asks x p (some cast)) ∧
          stats.castsMade = found.card ∧ found.card ≤ site.arity) ∧
      (stats.specializedCalls ≤ requests.length ∧ stats.genericCalls ≤ requests.length ∧
        stats.unexpectedResults ≤ requests.length) ∧
      ∀ m s',
        (∀ args, args.length ≠ site.arity → (site.serve (.callDynamic args)).run m s' =
          ((.failed (.arity site.arity args.length), m), s')) ∧
        ∀ p, site.arity ≤ p → (site.serve (.hasCast p)).run m s' = ((.flag false, m), s') := by
  intro stats history
  have hrequests : history.map Served.request = requests := site.history_requests requests _ s
  obtain ⟨n, hstats⟩ : ∃ n, stats = _ := site.stats_serveAll requests .empty s
  have hspecialized : stats.specializedCalls = requests.countP site.isSpecialized := by
    rw [hstats]
    exact Nat.zero_add _
  have hgeneric : stats.genericCalls = requests.countP fun r => (site.genericArgs r).isSome := by
    rw [hstats]
    exact Nat.zero_add _
  have hunexpected : stats.unexpectedResults = history.countP Served.isUnexpected := by
    rw [hstats]
    exact Nat.zero_add _
  have hlength : history.length = requests.length := by
    rw [← List.length_map, hrequests]
  refine ⟨hrequests, site.history_replies requests _ s, hspecialized, hgeneric, hunexpected,
    site.castsMade_serveAll fits s, ?_, fun m s' => ⟨fun args h => ?_, fun p h => ?_⟩⟩
  · rw [hspecialized, hgeneric, hunexpected, ← hlength]
    exact ⟨hlength ▸ List.countP_le_length, hlength ▸ List.countP_le_length,
      List.countP_le_length⟩
  · exact site.run_callDynamic_of_length_ne h m s'
  · exact site.run_hasCast_of_le h m s'

/-- Requests of every kind, some of which do not reach the operation or fail on their way. -/
def firstRequests : List Request :=
  [.execute [.int 1, .long 2] .int, .callDynamic [.int 1], .call [.str "x", .int 1], .hasCast 7,
    .dispatch [.bool true, .long 7] .bool]

theorem stats_account_firstOf :
    (∀ r ∈ firstRequests, r.Fits firstOf.arity) ∧
      ((firstOf.serveAll firstRequests).memory .empty ()).stats = ⟨1, 2, 2, 1⟩ ∧
      firstRequests.countP firstOf.isSpecialized = 1 ∧
      (firstOf.history firstRequests .empty ()).countP Served.isUnexpected = 1 :=
  have fits : ∀ r ∈ firstRequests, r.Fits firstOf.arity := by
    simp [firstRequests, Request.Fits, firstOf]
  have counters : ((firstOf.serveAll firstRequests).memory .empty ()).stats = ⟨1, 2, 2, 1⟩ := by rfl
  have account := stats_account firstOf firstRequests fits ()
  ⟨fits, counters, account.2.2.1.symm.trans (congrArg DispatchStats.specializedCalls counters),
    account.2.2.2.2.1.symm.trans (congrArg DispatchStats.unexpectedResults counters)⟩

end Site
end StridedViews
