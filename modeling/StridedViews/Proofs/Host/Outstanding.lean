import Mathlib.Data.Finset.Card
import StridedViews.Proofs.Host.Refusals

/-!
Views outstanding. A host counts the views that it makes and the views that it releases, and each of them
once. But it releases views that it has not made as well, and such a release is counted like any other. So
what it shows as outstanding is less than the number of its views that it has not released by one for each
foreign view that it has (`Guest.Run.outstanding_counts_views`).
-/

namespace StridedViews

namespace Host

variable {host host' : Host} {i : ItemId} {v : View}

/-- A making either makes a view that was not there before, which is counted, or counts nothing. -/
structure Counts (host : Host) (made : Except HostError ItemId × Host) : Prop where
  ok : ∀ i, made.1 = .ok i → host.memory.view? i = none ∧ (∃ v, made.2.memory.view? i = some v) ∧
    made.2.metrics = { host.metrics with viewsCreated := host.metrics.viewsCreated + 1 }
  error : ∀ e, made.1 = .error e → made.2.metrics = host.metrics

theorem counts_error {e : HostError} (h : host'.metrics = host.metrics) :
    host.Counts (.error e, host') := ⟨nofun, fun _ _ => h⟩

/-- The share of an owner that is added before a making is counted by nothing. -/
theorem Counts.of_lend {owner : Option ItemId} {made : Except HostError ItemId × Host}
    (h : (host.lend owner).Counts made) : host.Counts made where
  ok i hi := by
    obtain ⟨hnone, hview, hmetrics⟩ := h.ok i hi
    exact ⟨(host.memory.view?_shareAll _ i).symm.trans hnone, hview, hmetrics⟩
  error e he := h.error e he

/-- Another view in the memory is counted, and nothing is where there is none. -/
theorem counts_makeView {l : Layout} {owner : Option ItemId}
    {make : Memory → Except ViewError ItemId × Memory}
    (hmake : ∀ i m', make host.memory = (.ok i, m') → ∃ (m : Memory) (v : View),
      (∀ j, m.view? j = host.memory.view? j) ∧ (i, m') = m.put (.view v)) :
    host.Counts (host.makeView l owner make) := by
  rw [makeView]
  split
  · exact counts_error rfl
  · split
    · next i m' hmade =>
      obtain ⟨m, v, hviews, heq⟩ := hmake i m' hmade
      obtain ⟨rfl, rfl⟩ := Prod.mk.inj heq
      refine ⟨fun i h => ?_, fun e h => ?_⟩
      · cases h
        exact ⟨(hviews _).symm.trans (m.view?_next_put (.view v)),
          ⟨v, m.view?_put_self (.view v)⟩, rfl⟩
      · cases h
    · exact counts_error rfl

theorem counts_viewOwned (host : Host) (bytes : List UInt8) (l : Layout) :
    host.Counts (host.viewOwned bytes l) := by
  rcases host.viewOwned_cases bytes l with ⟨-, heq⟩ | ⟨-, e, heq⟩
  · rw [heq]
    refine ⟨fun i h => ?_, nofun⟩
    cases h
    exact ⟨host.memory.view?_next (.view (host.ownedView l)), ⟨_, host.view?_withOwned ..⟩, rfl⟩
  · rw [heq]
    exact counts_error rfl

theorem counts_planned (host : Host) (plan : Except LayoutError (List UInt8 × Layout)) :
    host.Counts (host.planned plan) := by
  cases plan with
  | ok plan => exact host.counts_viewOwned plan.1 plan.2
  | error e => exact counts_error rfl

theorem counts_viewOver (host : Host) (l : Layout) (id : BufferId) (owner : Option ItemId) :
    host.Counts (host.viewOver l id owner) := by
  refine counts_makeView fun i m' hmade => ?_
  obtain ⟨-, pool, -, heq⟩ := Memory.viewOver_eq_ok_iff.mp hmade
  exact ⟨{ host.memory with pool }, _, fun _ => rfl, heq⟩

theorem counts_viewAliased (host : Host) (l : Layout) (bytes : List UInt8) (owner : Option ItemId) :
    host.Counts (host.viewAliased l bytes owner) := by
  refine counts_makeView fun i m' hmade => ?_
  obtain ⟨-, heq⟩ := Memory.newView_eq_ok_iff.mp hmade
  exact ⟨host.memory, _, fun _ => rfl, heq⟩

theorem counts_make (host : Host) (making : Making) : host.Counts (host.make making) := by
  cases making with
  | overBuffer l id owner => exact host.counts_viewOver l id owner
  | aliased l bytes owner => exact host.counts_viewAliased l bytes owner
  | allocate formatText shape =>
    rw [make_of_buffer? rfl]
    exact host.counts_planned _
  | adopt bytes parts =>
    rw [make_of_buffer? rfl]
    exact host.counts_planned _
  | ofObject i o =>
    rw [make, viewOfObject]
    split
    · exact counts_error rfl
    · split
      · exact counts_error rfl
      · exact .of_lend ((host.lend (some i)).counts_viewAliased ..)

end Host

namespace Guest

variable {σ : Type} {raise : RaiseHandler σ} {g : Guest σ} {i : ItemId} {v : View}

/-- The view that an operation of the host made. -/
def Op.constructed? : Op → Outcome → Option ItemId
  | .make _, .view i => some i
  | _, _ => none

/-- The view that an operation of the host released. -/
def Op.released? : Op → Outcome → Option ItemId
  | .release i, .flag true => some i
  | _, _ => none

/-- What a host counts of an operation: the view that it makes, which was not there before, and the view
that it releases, which was not released before. -/
structure Counts (g : Guest σ) (op : Op) (r : Outcome × Guest σ) : Prop where
  created : r.2.host.metrics.viewsCreated =
    g.host.metrics.viewsCreated + (op.constructed? r.1).toList.length
  released : r.2.host.metrics.viewsReleased =
    g.host.metrics.viewsReleased + (op.released? r.1).toList.length
  new : ∀ i, op.constructed? r.1 = some i →
    g.host.memory.view? i = none ∧ ∃ v, r.2.host.memory.view? i = some v
  ended : ∀ i, op.released? r.1 = some i →
    (∃ v, g.host.memory.view? i = some v ∧ v.isReleased = false) ∧
      ∃ v, r.2.host.memory.view? i = some v ∧ v.isReleased = true

/-- An operation of which the host counts nothing. -/
theorem Counts.quiet {op : Op} {r : Outcome × Guest σ} (hc : op.constructed? r.1 = none)
    (hr : op.released? r.1 = none)
    (hcreated : r.2.host.metrics.viewsCreated = g.host.metrics.viewsCreated)
    (hreleased : r.2.host.metrics.viewsReleased = g.host.metrics.viewsReleased) : g.Counts op r where
  created := by rw [hc, hcreated]; rfl
  released := by rw [hr, hreleased]; rfl
  new i h := nomatch hc.symm.trans h
  ended i h := nomatch hr.symm.trans h

theorem counts_make (g : Guest σ) (making : Host.Making) :
    g.Counts (.make making) (g.make making) := by
  have hcounts := ((g.host.lend making.owner).counts_make making).of_lend
  rw [make]
  generalize (g.host.lend making.owner).make making = made at hcounts
  obtain ⟨result, host'⟩ := made
  cases result with
  | error e =>
    have hmetrics := hcounts.error e rfl
    exact .quiet rfl rfl (congrArg (·.viewsCreated) hmetrics) (congrArg (·.viewsReleased) hmetrics)
  | ok j =>
    obtain ⟨hnone, hview, hmetrics⟩ := hcounts.ok j rfl
    refine ⟨congrArg (·.viewsCreated) hmetrics, congrArg (·.viewsReleased) hmetrics, fun i h => ?_,
      fun i h => ?_⟩
    · cases h
      exact ⟨hnone, hview⟩
    · cases h

theorem counts_read (g : Guest σ) (i : ItemId) (v : View) :
    g.Counts (.read i) (g.hosted (g.host.read raise v) .bytes) := by
  obtain ⟨n, hread⟩ := g.host.exists_host_read raise v g.raiser
  have hmetrics : (g.hosted (g.host.read raise v) .bytes).2.host.metrics =
      { g.host.metrics with bytesMaterialized := n } := congrArg Host.metrics hread
  exact .quiet rfl rfl (congrArg (·.viewsCreated) hmetrics) (congrArg (·.viewsReleased) hmetrics)

theorem counts_release (hv : g.host.memory.view? i = some v) :
    g.Counts (.release i) (g.hosted (g.host.release raise i v) .flag) := by
  cases hmade : g.host.memory.release i v with
  | error e =>
    rw [Host.release, hmade]
    exact .quiet rfl rfl rfl rfl
  | ok made =>
    rcases Memory.release_cases hmade with ⟨-, rfl⟩ | ⟨hlive, -, rfl⟩
    · rw [Host.release, hmade]
      exact .quiet rfl rfl rfl rfl
    · have hview := Memory.view?_releaseView hv i
      rw [Host.release, hmade]
      refine ⟨rfl, rfl, fun j h => ?_, fun j h => ?_⟩
      · cases h
      · cases h
        refine ⟨⟨v, hv, hlive⟩, v.released, ?_, rfl⟩
        rw [if_pos rfl, hv] at hview
        exact hview

theorem counts_onView {op : Op} {act : View → Outcome × Guest σ}
    (hc : ∀ o, op.constructed? o = none) (hr : op.released? .refused = none)
    (h : ∀ v, g.host.memory.view? i = some v → g.Counts op (act v)) : g.Counts op (g.onView i act) := by
  rcases g.onView_cases i act with heq | ⟨v, hv, -, heq⟩
  · rw [heq]
    exact .quiet (hc _) hr rfl rfl
  · rw [heq]
    exact h v hv

theorem counts_step (raise : RaiseHandler σ) (g : Guest σ) (op : Op) : g.Counts op (g.step raise op) := by
  cases op with
  | own op => exact .quiet rfl rfl rfl rfl
  | raise kind text => exact .quiet rfl rfl rfl rfl
  | make making =>
    rw [step]
    split
    · exact g.counts_make making
    · exact .quiet rfl rfl rfl rfl
  | read i => exact counts_onView (fun _ => rfl) rfl fun v _ => g.counts_read i v
  | release i => exact counts_onView (fun _ => rfl) rfl fun v hv => counts_release hv

/-! ### In runs -/

namespace Run

variable {run : Run σ} {config : Config} {host : Host}

/-- The views that the host has made, in order. -/
def constructed (run : Run σ) : List ItemId :=
  run.log.filterMap fun entry => entry.1.constructed? entry.2

/-- The views that the host has released, in order. -/
def released (run : Run σ) : List ItemId :=
  run.log.filterMap fun entry => entry.1.released? entry.2

/-- The views of the host that it has not released. -/
def unreleased (run : Run σ) : Finset ItemId := run.constructed.toFinset \ run.released.toFinset

/-- The views that the host has released though it has not made them. -/
def foreign (run : Run σ) : Finset ItemId := run.released.toFinset \ run.constructed.toFinset

theorem constructed_extend (run : Run σ) (op : Op) : (run.extend raise op).constructed =
    run.constructed ++ (op.constructed? (run.guest.step raise op).1).toList := by
  rw [constructed, extend, List.filterMap_append, constructed]
  cases h : op.constructed? (run.guest.step raise op).1 <;> simp [h]

theorem released_extend (run : Run σ) (op : Op) : (run.extend raise op).released =
    run.released ++ (op.released? (run.guest.step raise op).1).toList := by
  rw [released, extend, List.filterMap_append, released]
  cases h : op.released? (run.guest.step raise op).1 <;> simp [h]

/-- Every view that was made or released is counted once. -/
structure Counted (run : Run σ) : Prop where
  created : run.guest.host.metrics.viewsCreated = run.constructed.length
  released : run.guest.host.metrics.viewsReleased = run.released.length
  createdOnce : run.constructed.Nodup
  releasedOnce : run.released.Nodup
  there : ∀ i ∈ run.constructed, ∃ v, run.memory.view? i = some v
  ended : ∀ i ∈ run.released, ∃ v, run.memory.view? i = some v ∧ v.isReleased = true

theorem nodup_append_toList {xs : List ItemId} {o : Option ItemId} (hxs : xs.Nodup)
    (ho : ∀ i, o = some i → i ∉ xs) : (xs ++ o.toList).Nodup := by
  cases o with
  | none => rwa [Option.toList_none, List.append_nil]
  | some i => exact hxs.append (List.nodup_singleton i) (List.disjoint_singleton.mpr (ho i rfl))

theorem Counted.extend (h : run.Counted) (op : Op)
    (hkeeps : run.memory.Keeps (run.extend raise op).memory) : (run.extend raise op).Counted := by
  have hcounts := run.guest.counts_step raise op
  refine ⟨?_, ?_, ?_, ?_, fun i hi => ?_, fun i hi => ?_⟩
  · rw [constructed_extend, List.length_append, ← h.created]
    exact hcounts.created
  · rw [released_extend, List.length_append, ← h.released]
    exact hcounts.released
  · rw [constructed_extend]
    refine nodup_append_toList h.createdOnce fun i hi hmem => ?_
    obtain ⟨v, hv⟩ := h.there i hmem
    exact nomatch hv.symm.trans (hcounts.new i hi).1
  · rw [released_extend]
    refine nodup_append_toList h.releasedOnce fun i hi hmem => ?_
    obtain ⟨v, hv, hr⟩ := h.ended i hmem
    obtain ⟨w, hw, hlive⟩ := (hcounts.ended i hi).1
    cases hv.symm.trans hw
    exact Bool.false_ne_true (hlive.symm.trans hr)
  · rw [constructed_extend, List.mem_append, Option.mem_toList] at hi
    rcases hi with hi | hi
    · obtain ⟨v, hv⟩ := h.there i hi
      obtain ⟨v', hv', -⟩ := hkeeps.view i v hv
      exact ⟨v', hv'⟩
    · exact (hcounts.new i hi).2
  · rw [released_extend, List.mem_append, Option.mem_toList] at hi
    rcases hi with hi | hi
    · obtain ⟨v, hv, hr⟩ := h.ended i hi
      obtain ⟨v', hv', -, hsame⟩ := hkeeps.view i v hv
      refine ⟨v', hv', Bool.eq_true_of_not_eq_false fun hlive => ?_⟩
      exact Bool.false_ne_true ((hsame hlive).1.symm.trans hr)
    · exact (hcounts.ended i hi).2

theorem counted (raise : RaiseHandler σ) (hhost : Host.create config = .ok host) (raiser : σ)
    (ops : List Op) : (of raise host raiser ops).Counted := by
  induction ops using List.reverseRecOn with
  | nil =>
    rw [Host.create_eq_ok hhost]
    exact ⟨rfl, rfl, .nil, .nil, nofun, nofun⟩
  | append_singleton ops op ih =>
    have hkeeps := keeps raise hhost raiser ops [op]
    rw [of_concat] at hkeeps ⊢
    exact ih.extend op hkeeps

/-- At any time, what a host shows as outstanding is the number of the views that it has made and not
released, less one for each view that it has released without having made it, and none if these are more.
So it is that number just if there are no views of the one sort or none of the other. -/
theorem outstanding_counts_views (raise : RaiseHandler σ) (hhost : Host.create config = .ok host)
    (raiser : σ) (ops : List Op) :
    (of raise host raiser ops).guest.host.metrics.outstanding =
        (of raise host raiser ops).unreleased.card - (of raise host raiser ops).foreign.card ∧
      ((of raise host raiser ops).guest.host.metrics.outstanding =
          (of raise host raiser ops).unreleased.card ↔
        (of raise host raiser ops).unreleased = ∅ ∨ (of raise host raiser ops).foreign = ∅) := by
  have hcounted := counted raise hhost raiser ops
  generalize of raise host raiser ops = run at hcounted ⊢
  have hmade := Finset.card_sdiff_add_card_inter run.constructed.toFinset run.released.toFinset
  have hended := Finset.card_sdiff_add_card_inter run.released.toFinset run.constructed.toFinset
  rw [List.toFinset_card_of_nodup hcounted.createdOnce, ← unreleased] at hmade
  rw [List.toFinset_card_of_nodup hcounted.releasedOnce, ← foreign, Finset.inter_comm] at hended
  rw [← Finset.card_eq_zero, ← Finset.card_eq_zero, HostMetrics.outstanding, hcounted.created,
    hcounted.released]
  omega

/-- Two views are made through the host, and one is not. The host releases one of the two, and the other
one of them is released past it. -/
def twoMadeOneReleased : List Op :=
  [.make (.allocate "B" [2]), .make (.allocate "B" [1]),
    .own (.viewAliased (Layout.bytes 1 true) [0] none .bestEffort {}), .release 1, .release 1,
    .own (.releaseView 2)]

theorem outstanding_counts_views_twoMadeOneReleased :
    (standard twoMadeOneReleased).guest.host.metrics.outstanding = 1 ∧
      (standard twoMadeOneReleased).unreleased = {2} := by
  have hhost : Host.create {} = .ok .standard := rfl
  have hunreleased : (standard twoMadeOneReleased).unreleased = {2} := by decide
  have hforeign : (standard twoMadeOneReleased).foreign = ∅ := by decide
  have hcount := (outstanding_counts_views RaiseHandler.plain hhost () twoMadeOneReleased).2.mpr
    (.inr hforeign)
  refine ⟨hcount.trans ?_, hunreleased⟩
  rw [hunreleased]
  rfl

/-- One view is made through the host, and the host releases another one. -/
def foreignReleased : List Op :=
  [.own (.viewAliased (Layout.bytes 1 true) [0] none .bestEffort {}),
    .make (.aliased (Layout.bytes 1 true) [0] none), .release 1]

/-- The view that the host made is outstanding, and the host shows none. -/
theorem foreign_release_hides_view :
    (standard foreignReleased).guest.host.metrics.outstanding = 0 ∧
      (standard foreignReleased).unreleased = {2} := by
  decide

end Run

end Guest

end StridedViews
