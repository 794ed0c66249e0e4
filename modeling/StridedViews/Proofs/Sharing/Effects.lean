import StridedViews.Proofs.Sharing.Order
import StridedViews.Proofs.Sharing.Steps
import StridedViews.Proofs.Storage.Labels

/-!
What operations do to views, guards and stores. The end of an operation tells its effect on views: it
builds one, or changes one in one of a few ways, or changes none (`Client.Op.effect`). Guards come and
go with the exports that they count, a store is used up by the buffer that is made over it or by being
torn down alone, and its labels go the same way (`Client.effects_step`).
-/

namespace StridedViews

/-- The ways in which a view that is there changes. -/
inductive ViewChange where
  /-- It remembers a hash, or forgets it if the hash is -1. -/
  | hashed (h : Int)
  /-- An export is begun without a guard. -/
  | begun
  /-- An export is ended without a guard. -/
  | ended
  /-- An export is begun with a guard. -/
  | acquired
  /-- The guard of an export is dropped. -/
  | dropped
  | released
  deriving DecidableEq, Repr

namespace ViewChange

def apply : ViewChange → View → View
  | hashed h => (·.withHash h)
  | begun | acquired => View.exported
  | ended | dropped => View.unexported
  | released => View.released

/-- What a view must be like to change so. -/
def Suits : ViewChange → View → Prop
  | hashed _, _ | begun, _ | ended, _ | dropped, _ => True
  | acquired, v => v.isReleased = false
  | released, v => v.isReleased = false ∧ v.checkReleasable = .ok ()

end ViewChange

/-- What an operation does to the views of a memory. -/
inductive ViewEffect where
  | quiet
  | changed (i : ItemId) (change : ViewChange)
  | built (i : ItemId) (v : View)

namespace ViewEffect

/-- What becomes of the view of number `i`. -/
def apply (i : ItemId) (v : Option View) : ViewEffect → Option View
  | quiet => v
  | changed j change => if i = j then v.map change.apply else v
  | built j new => if i = j then some new else v

/-- The change of the view of number `i`, if it is changed. -/
def changes (i : ItemId) : ViewEffect → List ViewChange
  | changed j change => if i = j then [change] else []
  | quiet | built .. => []

/-- The number of the view that is built or changed. -/
def item? : ViewEffect → Option ItemId
  | quiet => none
  | changed i _ | built i _ => some i

variable {effect : ViewEffect} {i : ItemId}

theorem apply_of_ne (h : effect.item? ≠ some i) (v : Option View) : effect.apply i v = v := by
  cases effect with
  | quiet => rfl
  | changed j change => exact if_neg fun hj => h (congrArg some hj.symm)
  | built j new => exact if_neg fun hj => h (congrArg some hj.symm)

theorem changes_of_ne (h : effect.item? ≠ some i) : effect.changes i = [] := by
  cases effect with
  | quiet => rfl
  | changed j change => exact if_neg fun hj => h (congrArg some hj.symm)
  | built j new => rfl

end ViewEffect

/-- A view that nothing has happened to. -/
structure View.New (v : View) : Prop where
  live : v.isReleased = false
  attached : v.source ≠ .managed none
  exports : v.exports = 0
  cachedHash : v.cachedHash = none

theorem View.new_of_build {p : Pool} {l : Layout} {source : ViewSource} {owner : Option ItemId}
    {policy : ReleasePolicy} {requested : ViewFlags} {v : View}
    (h : View.build p l source owner policy requested = .ok v) : v.New := by
  obtain ⟨-, hcheck, rfl⟩ := build_eq_ok_iff.mp h
  refine ⟨rfl, ?_, rfl, rfl⟩
  rintro (rfl : source = .managed none)
  cases hcheck

/-- Whether a handle is a guard of the view of number `i`. -/
def Handle.isGuardOf (i : ItemId) : Handle → Bool
  | .guard j _ => i = j
  | .buffer _ | .reference _ | .pin _ | .view _ | .owner _ | .object _ => false

/-! ### Views of a memory that changes -/

namespace Memory

variable {m : Memory} {i j : ItemId} {v : View}

theorem view?_share (m : Memory) (i j : ItemId) : (m.share i).view? j = m.view? j := by
  simp only [view?, item?, share, Numbered.get?_update]
  by_cases hj : j = i
  · rw [if_pos hj]
    rcases Numbered.get? m.items j with _ | ⟨_ | _ | _ | _, _⟩ <;> rfl
  · rw [if_neg hj]

theorem view?_shareAll (m : Memory) (holds : List Hold) (i : ItemId) :
    (m.shareAll holds).view? i = m.view? i := by
  induction holds generalizing m with
  | nil => rfl
  | cons h rest ih =>
    cases h with
    | buffer id sort => exact ih m
    | share j => exact (ih _).trans (m.view?_share j i)

/-- The number of a new item was none of a view. -/
theorem view?_next_put (m : Memory) (t : Thing) : m.view? (m.put t).1 = none := by
  have hnone : m.item? (m.put t).1 = none := Numbered.get?_eq_none (Nat.lt_succ_self _)
  rw [view?, hnone]

theorem view?_next (m : Memory) (t : Thing) : m.view? (m.add t).1 = none := by
  rw [← m.view?_shareAll t.holds]
  exact view?_next_put ..

/-- A new item changes no other view. -/
theorem view?_add_of_ne {t : Thing} (hj : j ≠ (m.add t).1) : (m.add t).2.view? j = m.view? j := by
  have hitem : (m.add t).2.item? j = (m.shareAll t.holds).item? j := if_neg hj
  rw [← m.view?_shareAll t.holds, view?, hitem, ← view?]

/-- A new item that is no view changes no view. -/
theorem view?_add_of_not_view {t : Thing} (ht : ∀ v, t ≠ .view v) (j : ItemId) :
    (m.add t).2.view? j = m.view? j := by
  by_cases hj : j = (m.add t).1
  · subst hj
    rw [view?_next, view?_add_self]
    cases t with
    | view v => exact absurd rfl (ht v)
    | object o => rfl
    | text s => rfl
    | integer n => rfl
  · exact view?_add_of_ne hj

/-- What is given up with a view that is released changes no view. -/
theorem view?_releaseView (hv : m.view? i = some v) (j : ItemId) :
    ((m.setView i v.released).giveUp v.holds).view? j =
      if j = i then (m.view? j).map View.released else m.view? j := by
  rw [view?_giveUp, setView_eq_alterView hv View.released, view?_alterView]

theorem labels_giveUp (m : Memory) (holds : List Hold) :
    (m.giveUp holds).pool.labels = m.pool.labels :=
  Pool.labels_letGoAll ..

theorem pool_unexport (m : Memory) (h : Handle) : (m.unexport h).pool = m.pool := by
  rw [unexport_eq_mark, mark]
  split <;> rfl

/-- A view is exported if it is not released and its buffer takes a pin. -/
theorem acquire_eq_ok {made : Option BufferId × Memory} (h : m.acquire i v = .ok made) :
    v.isReleased = false ∧ ∃ pool : Pool, pool.labels = m.pool.labels ∧
      made = (v.buffer?, (setView { m with pool } i v.exported).share i) := by
  obtain ⟨_, hlive, h⟩ := bind_eq_ok_iff.mp h
  refine ⟨View.checkReleased_eq_ok_iff.mp hlive, ?_⟩
  cases hsource : v.source with
  | aliased bytes =>
    rw [hsource] at h
    cases h
    exact ⟨m.pool, rfl, rfl⟩
  | managed buffer =>
    rw [hsource] at h
    cases buffer with
    | none => cases h
    | some id =>
      obtain ⟨pool, hpin, heq⟩ := bind_eq_ok_iff.mp h
      cases heq
      exact ⟨pool, Pool.labels_hold (h := .pin) (mapError_eq_ok_iff.mp hpin), rfl⟩

end Memory

namespace Client

variable {c c' : Client} {op : Op} {o : Outcome} {i : ItemId} {h : Handle}

/-- What an operation that ended in some way did to views. -/
def Op.effect (op : Op) (o : Outcome) : ViewEffect :=
  match o, op with
  | .done, .setHash i h => .changed i (.hashed h)
  | .integer h, .hash i => .changed i (.hashed h)
  | .done, .beginExport i => .changed i .begun
  | .done, .endExport i => .changed i .ended
  | .done, .acquire i => .changed i .acquired
  | .done, .drop (.guard i _) => .changed i .dropped
  | .flag released, .releaseView i => if released then .changed i .released else .quiet
  | .item i, .viewOver l id owner policy =>
    .built i (.fresh l (.managed (some id)) owner policy (ViewFlags.ofLayout l))
  | .item i, .viewAliased l bytes owner policy flags =>
    .built i (.fresh l (.aliased bytes) owner policy flags)
  | .item i, .viewThrough l reference owner policy flags =>
    .built i (.fresh l (.managed reference) owner policy flags)
  | _, _ => .quiet

/-- The store that an operation used up, if it ended well. -/
def Op.uses (op : Op) (o : Outcome) : Multiset Store :=
  match o, op with
  | .done, .dropStore s => {s}
  | .buffer _, .makeBuffer s _ => {s}
  | _, _ => 0

/-- The store that is made. -/
def Outcome.stores : Outcome → Multiset Store
  | .store s => {s}
  | _ => 0

/-- How many guards of a view the client has. -/
def guards (c : Client) (i : ItemId) : Nat := c.handles.countP (·.isGuardOf i)

theorem guards_keep (c : Client) (h : Handle) (i : ItemId) :
    (c.keep h).guards i = c.guards i + if h.isGuardOf i then 1 else 0 :=
  Multiset.countP_cons ..

theorem guards_lose (hh : h ∈ c.handles) (i : ItemId) :
    (c.lose h).guards i + (if h.isGuardOf i then 1 else 0) = c.guards i := by
  rw [← guards_keep, keep, lose, Multiset.cons_erase hh]

/-- What an operation does to views, guards, stores and labels. -/
structure Effects (c : Client) (op : Op) (r : Outcome × Client) : Prop where
  views : ∀ i, r.2.memory.view? i = (op.effect r.1).apply i (c.memory.view? i)
  suits : ∀ i change, op.effect r.1 = .changed i change → change ≠ .dropped →
    ∃ v, c.memory.view? i = some v ∧ change.Suits v
  new : ∀ i v, op.effect r.1 = .built i v → c.memory.view? i = none ∧ v.New
  guards : ∀ i, r.2.guards i + ((op.effect r.1).changes i).count .dropped =
    c.guards i + ((op.effect r.1).changes i).count .acquired
  stores : r.2.stores + op.uses r.1 = c.stores + r.1.stores
  labels : r.2.pool.labels = c.pool.labels + (op.uses r.1).bind fun s => (s.lent : Multiset String)

/-- An operation that changes no view and no guard. -/
theorem Effects.of_quiet (he : op.effect o = .quiet)
    (hviews : ∀ i, c'.memory.view? i = c.memory.view? i) (hguards : ∀ i, c'.guards i = c.guards i)
    (hstores : c'.stores + op.uses o = c.stores + o.stores)
    (hlabels : c'.pool.labels =
      c.pool.labels + (op.uses o).bind fun s => (s.lent : Multiset String)) :
    c.Effects op (o, c') where
  views i := by rw [he]; exact hviews i
  suits i change h := by rw [he] at h; cases h
  new i v h := by rw [he] at h; cases h
  guards i := by rw [he]; exact congrArg (· + 0) (hguards i)
  stores := hstores
  labels := hlabels

/-- An operation that changes no view and no guard and uses no store. -/
theorem Effects.quiet (he : op.effect o = .quiet) (hu : op.uses o = 0)
    (hviews : ∀ i, c'.memory.view? i = c.memory.view? i) (hguards : ∀ i, c'.guards i = c.guards i)
    (hstores : c'.stores = c.stores + o.stores) (hlabels : c'.pool.labels = c.pool.labels) :
    c.Effects op (o, c') := by
  refine .of_quiet he hviews hguards ?_ ?_
  · rw [hu, add_zero, hstores]
  · rw [hu, Multiset.zero_bind, add_zero, hlabels]

/-- An operation that changes nothing. -/
theorem Effects.refl (he : op.effect o = .quiet) (hu : op.uses o = 0) (ho : o.stores = 0) :
    c.Effects op (o, c) :=
  .quiet he hu (fun _ => rfl) (fun _ => rfl) (by rw [ho, add_zero]) rfl

/-- An operation that changes one view. -/
theorem Effects.change (change : ViewChange) (he : op.effect o = .changed i change)
    (hu : op.uses o = 0) (ho : o.stores = 0)
    (hviews : ∀ j, c'.memory.view? j =
      if j = i then (c.memory.view? j).map change.apply else c.memory.view? j)
    (hsuits : change ≠ .dropped → ∃ v, c.memory.view? i = some v ∧ change.Suits v)
    (hguards : ∀ j, c'.guards j + (if change = .dropped ∧ j = i then 1 else 0) =
      c.guards j + if change = .acquired ∧ j = i then 1 else 0)
    (hstores : c'.stores = c.stores) (hlabels : c'.pool.labels = c.pool.labels) :
    c.Effects op (o, c') where
  views j := by rw [he]; exact hviews j
  suits j change' h := by
    rw [he] at h
    cases h
    exact hsuits
  new j v h := by rw [he] at h; cases h
  guards j := by
    have hj := hguards j
    rw [he, ViewEffect.changes]
    by_cases hji : j = i
    · subst hji
      simpa [List.count_singleton] using hj
    · simpa [hji] using hj
  stores := by rw [hu, ho]; exact congrArg (· + 0) hstores
  labels := by rw [hu]; exact hlabels.trans (add_zero _).symm

theorem effects_given {there : Bool} {act : Outcome × Client}
    (h : there = true → c.Effects op act) : c.Effects op (c.given there act) := by
  rw [given]
  split
  · next ht => exact h ht
  · exact .refl rfl rfl rfl

theorem effects_attempt {ε : Type} {onError : ε → ViewError} {x : Except ε (Outcome × Client)}
    (h : ∀ r, x = .ok r → c.Effects op r) : c.Effects op (c.attempt onError x) := by
  cases x with
  | ok r => exact h r rfl
  | error e => exact .refl rfl rfl rfl

theorem effects_onView {act : View → Outcome × Client}
    (h : ∀ v, c.memory.view? i = some v → c.Effects op (act v)) :
    c.Effects op (c.onView i act) := by
  rw [onView]
  split
  · next v hv => exact effects_given fun _ => h v hv
  · exact .refl rfl rfl rfl

/-- An operation that only changes the pool, and no label with it. -/
theorem effects_withPool {p : Pool} (he : op.effect o = .quiet) (hu : op.uses o = 0)
    (ho : o.stores = 0) (hp : p.labels = c.pool.labels) : c.Effects op (o, c.withPool p) :=
  .quiet he hu (fun _ => rfl) (fun _ => rfl) (by rw [ho]; exact (add_zero _).symm) hp

/-! ### The operations -/

theorem effects_exportStore (c : Client) (parent : BufferId) (start stop : Nat) :
    c.Effects (.exportStore parent start stop) (c.step (.exportStore parent start stop)) := by
  refine effects_given fun _ => effects_attempt fun r hr => ?_
  obtain ⟨⟨s, pool⟩, hexport, heq⟩ := bind_eq_ok_iff.mp hr
  cases heq
  refine .quiet rfl rfl (fun _ => rfl) (fun _ => rfl) ?_ ?_
  · exact (Multiset.singleton_add s c.stores).symm.trans (add_comm ..)
  · rw [Pool.exportRange] at hexport
    split at hexport
    · cases hexport
    · split at hexport
      · cases hexport
      · obtain ⟨pool', hpin, heq⟩ := bind_eq_ok_iff.mp hexport
        cases heq
        exact Pool.labels_hold hpin

theorem effects_share (c : Client) (h : Handle) : c.Effects (.share h) (c.step (.share h)) := by
  have hitem : ∀ i, (∀ j, h.isGuardOf j = false) → c.Effects (.share h)
      (c.given (c.hasItem i) (.done, (c.withMemory (c.memory.share i)).keep h)) := by
    intro i hh
    refine effects_given fun _ => .quiet rfl rfl (c.memory.view?_share i) (fun j => ?_)
      (add_zero _).symm rfl
    rw [guards_keep, hh]
    rfl
  cases h with
  | buffer id =>
    refine effects_given fun _ => .quiet rfl rfl (fun _ => rfl) (fun j => ?_) (add_zero _).symm ?_
    · rw [guards_keep]
      rfl
    · exact c.pool.labels_gain id .handle
  | view i => exact hitem i fun _ => rfl
  | owner i => exact hitem i fun _ => rfl
  | object i => exact hitem i fun _ => rfl
  | reference attached => exact .refl rfl rfl rfl
  | pin id => exact .refl rfl rfl rfl
  | guard i pinned => exact .refl rfl rfl rfl

theorem effects_drop (c : Client) (h : Handle) : c.Effects (.drop h) (c.step (.drop h)) := by
  refine effects_given fun hh => ?_
  have hguards : ∀ j, ((c.lose h).withMemory (c.memory.drop h)).guards j +
      (if h.isGuardOf j then 1 else 0) = c.guards j := guards_lose (of_decide_eq_true hh)
  have hlabels : (c.memory.drop h).pool.labels = c.pool.labels := by
    rw [Memory.drop, Memory.labels_giveUp, Memory.pool_unexport]
    rfl
  have hquiet (hnone : ∀ j, h.isGuardOf j = false) (hviews : c.memory.unexport h = c.memory)
      (he : (Op.drop h).effect .done = .quiet) :
      c.Effects (.drop h) (.done, (c.lose h).withMemory (c.memory.drop h)) := by
    refine .quiet he rfl (fun j => ?_) (fun j => ?_) (add_zero _).symm hlabels
    · exact (Memory.view?_giveUp ..).trans (by rw [hviews])
    · simpa [hnone j] using hguards j
  cases h with
  | guard i pinned =>
    refine .change .dropped rfl rfl rfl (fun j => ?_) (fun hne => absurd rfl hne) (fun j => ?_) rfl
      hlabels
    · refine (Memory.view?_giveUp ..).trans ?_
      rw [Memory.unexport_eq_mark]
      exact Memory.view?_alterView ..
    · simpa [Handle.isGuardOf] using hguards j
  | buffer id => exact hquiet (fun _ => rfl) rfl rfl
  | reference attached => exact hquiet (fun _ => rfl) rfl rfl
  | pin id => exact hquiet (fun _ => rfl) rfl rfl
  | view i => exact hquiet (fun _ => rfl) rfl rfl
  | owner i => exact hquiet (fun _ => rfl) rfl rfl
  | object i => exact hquiet (fun _ => rfl) rfl rfl

theorem effects_detach (c : Client) (id : BufferId) :
    c.Effects (.detach id) (c.step (.detach id)) := by
  refine effects_given fun hh => .quiet rfl rfl (fun j => Memory.view?_giveUp ..) (fun j => ?_)
    (add_zero _).symm (Memory.labels_giveUp ..)
  have hlose : (c.lose (.reference (some id))).guards j + 0 = c.guards j :=
    guards_lose (of_decide_eq_true hh) j
  exact (guards_keep ..).trans hlose

/-- A new item that is no view. -/
theorem effects_make {t : Thing} {handle : ItemId → Handle} (ht : ∀ v, t ≠ .view v)
    (hhandle : ∀ i j, (handle i).isGuardOf j = false) (he : ∀ i, op.effect (.item i) = .quiet)
    (hu : ∀ i, op.uses (.item i) = 0) : c.Effects op (c.make t handle) := by
  refine .quiet (he _) (hu _) (Memory.view?_add_of_not_view ht) (fun j => ?_) (add_zero _).symm ?_
  · refine (guards_keep ..).trans ?_
    rw [hhandle]
    rfl
  · exact congrArg Pool.labels (Memory.pool_add ..)

/-- A new view, in a memory in which the other views are as they were. -/
theorem effects_addView {c₀ : Client} {m : Memory} {v : View} (hnew : v.New)
    (he : op.effect (.item (m.add (.view v)).1) = .built (m.add (.view v)).1 v)
    (hu : op.uses (.item (m.add (.view v)).1) = 0) (hviews : ∀ j, m.view? j = c.memory.view? j)
    (hlabels : m.pool.labels = c.pool.labels) (hguards : ∀ j, c₀.guards j = c.guards j)
    (hstores : c₀.stores = c.stores) :
    c.Effects op (.item (m.add (.view v)).1,
      (c₀.withMemory (m.add (.view v)).2).keep (.view (m.add (.view v)).1)) where
  views j := by
    rw [he]
    change (m.add (.view v)).2.view? j = if j = (m.add (.view v)).1 then some v else c.memory.view? j
    split
    · next hj =>
      subst hj
      exact m.view?_add_self (.view v)
    · next hj => rw [Memory.view?_add_of_ne hj, hviews]
  suits i change h := by rw [he] at h; cases h
  new i w h := by
    rw [he] at h
    cases h
    exact ⟨(hviews _).symm.trans (m.view?_next _), hnew⟩
  guards j := by
    rw [he]
    exact congrArg (· + 0) ((guards_keep ..).trans (hguards j))
  stores := by
    rw [hu]
    exact congrArg (· + 0) hstores
  labels := by
    rw [hu, Multiset.zero_bind, add_zero, ← hlabels]
    exact congrArg Pool.labels (Memory.pool_add ..)

theorem effects_viewOver (c : Client) (l : Layout) (id : BufferId) (owner : Option ItemId)
    (policy : ReleasePolicy) :
    c.Effects (.viewOver l id owner policy) (c.step (.viewOver l id owner policy)) := by
  refine effects_given fun hthere => ?_
  rw [Bool.and_eq_true] at hthere
  rcases Memory.viewOver_lend_cases (living_of_hasOwner hthere.2) l id policy with
    ⟨e, heq⟩ | ⟨pool, -, hattach, heq⟩
  · rw [heq]
    exact .refl rfl rfl rfl
  · rw [heq]
    exact effects_addView ⟨rfl, (fun h => nomatch h), rfl, rfl⟩ rfl rfl (fun _ => rfl)
      (Pool.labels_hold (h := .reference) hattach) (fun _ => rfl) rfl

theorem effects_viewAliased (c : Client) (l : Layout) (bytes : List UInt8) (owner : Option ItemId)
    (policy : ReleasePolicy) (flags : ViewFlags) :
    c.Effects (.viewAliased l bytes owner policy flags)
      (c.step (.viewAliased l bytes owner policy flags)) := by
  refine effects_given fun howner => ?_
  rcases Memory.viewAliased_lend_cases (living_of_hasOwner howner) l bytes policy flags with
    ⟨e, heq⟩ | heq
  · rw [heq]
    exact .refl rfl rfl rfl
  · rw [heq]
    refine effects_addView ⟨rfl, ?_, rfl, rfl⟩ rfl rfl (fun _ => rfl) rfl (fun _ => rfl) rfl
    rintro ⟨⟩

theorem effects_viewThrough (c : Client) (l : Layout) (reference : Option BufferId)
    (owner : Option ItemId) (policy : ReleasePolicy) (flags : ViewFlags) :
    c.Effects (.viewThrough l reference owner policy flags)
      (c.step (.viewThrough l reference owner policy flags)) := by
  refine effects_given fun hthere => ?_
  rw [Bool.and_eq_true] at hthere
  have hguards : ∀ j, (c.lose (.reference reference)).guards j = c.guards j :=
    guards_lose (of_decide_eq_true hthere.1)
  rw [Memory.viewThrough]
  rcases Memory.newView_lend_cases (living_of_hasOwner hthere.2) l (.managed reference) policy
    flags with ⟨e, heq⟩ | ⟨hbuild, heq⟩
  · rw [heq]
    exact .quiet rfl rfl (fun j => Memory.view?_giveUp ..) hguards (add_zero _).symm
      (Memory.labels_giveUp ..)
  · rw [heq]
    exact effects_addView (View.new_of_build hbuild) rfl rfl (fun _ => rfl) rfl hguards rfl

/-- A view is replaced by what a change makes of it, which is no matter of guards. -/
theorem effects_setView {v : View} (change : ViewChange) (hv : c.memory.view? i = some v)
    (he : op.effect o = .changed i change) (hu : op.uses o = 0) (ho : o.stores = 0)
    (hsuits : change.Suits v) (hne : change ≠ .dropped) (hne' : change ≠ .acquired) :
    c.Effects op (o, c.setView i (change.apply v)) := by
  refine .change change he hu ho (fun j => ?_) (fun _ => ⟨v, hv, hsuits⟩) (fun j => ?_) rfl rfl
  · change (c.memory.setView i (change.apply v)).view? j = _
    rw [Memory.setView_eq_alterView hv, Memory.view?_alterView]
  · simp only [hne, hne', false_and, if_false]
    rfl

theorem effects_hash (c : Client) (i : ItemId) : c.Effects (.hash i) (c.step (.hash i)) := by
  refine effects_onView fun v hv => effects_attempt fun r hr => ?_
  obtain ⟨made, hmade, heq⟩ := bind_eq_ok_iff.mp hr
  obtain ⟨h, -, hmade⟩ := bind_eq_ok_iff.mp hmade
  cases hmade
  cases heq
  exact effects_setView (.hashed h) hv rfl rfl rfl trivial (fun h => nomatch h) fun h => nomatch h

theorem effects_acquire (c : Client) (i : ItemId) : c.Effects (.acquire i) (c.step (.acquire i)) := by
  refine effects_onView fun v hv => effects_attempt fun r hr => ?_
  obtain ⟨made, hmade, heq⟩ := bind_eq_ok_iff.mp hr
  obtain ⟨hlive, pool, hlabels, rfl⟩ := Memory.acquire_eq_ok hmade
  cases heq
  refine .change .acquired rfl rfl rfl (fun j => ?_) (fun _ => ⟨v, hv, hlive⟩) (fun j => ?_) rfl
    hlabels
  · have hv' : Memory.view? { c.memory with pool } i = some v := hv
    refine (Memory.view?_share ..).trans ?_
    rw [Memory.setView_eq_alterView hv' View.exported]
    exact Memory.view?_alterView ..
  · have hkeep : ((c.withMemory ((Memory.setView { c.memory with pool } i v.exported).share i)).keep
        (.guard i v.buffer?)).guards j = c.guards j + _ := guards_keep ..
    simpa [Handle.isGuardOf] using hkeep

theorem effects_releaseView (c : Client) (i : ItemId) :
    c.Effects (.releaseView i) (c.step (.releaseView i)) := by
  refine effects_onView fun v hv => effects_attempt fun r hr => ?_
  obtain ⟨made, hmade, heq⟩ := bind_eq_ok_iff.mp hr
  rcases Memory.release_cases hmade with ⟨-, rfl⟩ | ⟨hlive, hcheck, rfl⟩
  · cases heq
    exact .refl rfl rfl rfl
  · cases heq
    exact .change .released rfl rfl rfl (Memory.view?_releaseView hv) (fun _ => ⟨v, hv, hlive, hcheck⟩)
      (fun _ => by simp [guards, withMemory]) rfl (Memory.labels_giveUp ..)

/-- A loose store is used up. -/
theorem effects_use {s : Store} (he : op.effect o = .quiet) (ho : o.stores = 0) (hs : s ∈ c.stores)
    (hviews : ∀ i, c'.memory.view? i = c.memory.view? i) (hguards : ∀ i, c'.guards i = c.guards i)
    (hstores : c'.stores = c.stores.erase s) (hu : op.uses o = {s})
    (hlabels : c'.pool.labels = c.pool.labels + (s.lent : Multiset String)) :
    c.Effects op (o, c') := by
  refine .of_quiet he hviews hguards ?_ ?_
  · rw [hu, hstores, ho, add_comm, Multiset.singleton_add, Multiset.cons_erase hs, add_zero]
  · rw [hu, Multiset.singleton_bind, hlabels]

/-- Every operation has the effects that its end tells. -/
theorem effects_step (c : Client) (op : Op) : c.Effects op (c.step op) := by
  cases op with
  | makeRegistry => exact effects_withPool rfl rfl rfl rfl
  | ownStore bytes =>
    exact .quiet rfl rfl (fun _ => rfl) (fun _ => rfl) (add_comm {Store.owned bytes} c.stores) rfl
  | lendStore label bytes readOnly =>
    exact .quiet rfl rfl (fun _ => rfl) (fun _ => rfl)
      (add_comm {Store.foreign label bytes readOnly} c.stores) rfl
  | exportStore parent start stop => exact c.effects_exportStore parent start stop
  | dropStore s =>
    exact effects_given fun hs => effects_use rfl rfl (of_decide_eq_true hs) (fun _ => rfl)
      (fun _ => rfl) rfl rfl (c.pool.labels_discard s)
  | makeBuffer s r =>
    refine effects_given fun hthere => ?_
    rw [Bool.and_eq_true] at hthere
    exact effects_use rfl rfl (of_decide_eq_true hthere.1) (fun _ => rfl) (fun _ => guards_keep ..)
      rfl rfl (c.pool.labels_create s r)
  | releaseBuffer id =>
    exact effects_given fun _ => effects_withPool rfl rfl rfl (c.pool.labels_bring id .release)
  | writeBuffer id bytes =>
    refine effects_given fun _ => effects_attempt fun r hr => ?_
    obtain ⟨old, -, heq⟩ := bind_eq_ok_iff.mp hr
    cases heq
    split
    · exact effects_withPool rfl rfl rfl (c.pool.labels_overwrite id bytes)
    · exact .refl rfl rfl rfl
  | pin id =>
    refine effects_given fun _ => effects_attempt fun r hr => ?_
    obtain ⟨pool, hpin, heq⟩ := bind_eq_ok_iff.mp hr
    cases heq
    exact .quiet rfl rfl (fun _ => rfl) (fun _ => guards_keep ..) (add_zero _).symm
      (Pool.labels_hold (h := .pin) hpin)
  | attach id =>
    refine effects_given fun _ => effects_attempt fun r hr => ?_
    obtain ⟨pool, hattach, heq⟩ := bind_eq_ok_iff.mp hr
    cases heq
    exact .quiet rfl rfl (fun _ => rfl) (fun _ => guards_keep ..) (add_zero _).symm
      (Pool.labels_hold (h := .reference) hattach)
  | detach id => exact c.effects_detach id
  | share h => exact c.effects_share h
  | drop h => exact c.effects_drop h
  | makeText s =>
    exact effects_make (fun _ h => nomatch h) (fun _ _ => rfl) (fun _ => rfl) fun _ => rfl
  | makeInteger n =>
    exact effects_make (fun _ h => nomatch h) (fun _ _ => rfl) (fun _ => rfl) fun _ => rfl
  | makeObject o =>
    exact effects_given fun _ =>
      effects_make (fun _ h => nomatch h) (fun _ _ => rfl) (fun _ => rfl) fun _ => rfl
  | viewOver l id owner policy => exact c.effects_viewOver l id owner policy
  | viewAliased l bytes owner policy flags => exact c.effects_viewAliased l bytes owner policy flags
  | viewThrough l reference owner policy flags =>
    exact c.effects_viewThrough l reference owner policy flags
  | setHash i h =>
    exact effects_onView fun v hv =>
      effects_setView (.hashed h) hv rfl rfl rfl trivial (fun h => nomatch h) fun h => nomatch h
  | hash i => exact c.effects_hash i
  | beginExport i =>
    exact effects_onView fun v hv =>
      effects_setView .begun hv rfl rfl rfl trivial (fun h => nomatch h) fun h => nomatch h
  | endExport i =>
    exact effects_onView fun v hv =>
      effects_setView .ended hv rfl rfl rfl trivial (fun h => nomatch h) fun h => nomatch h
  | acquire i => exact c.effects_acquire i
  | releaseView i => exact c.effects_releaseView i
  | writeItem i index item =>
    refine effects_onView fun v hv => effects_attempt fun r hr => ?_
    obtain ⟨m, hwrite, heq⟩ := bind_eq_ok_iff.mp hr
    obtain ⟨pool, hpool, hm⟩ := bind_eq_ok_iff.mp hwrite
    obtain ⟨id, old, new, -, -, rfl⟩ := View.writeItem_eq_ok hpool
    cases hm
    cases heq
    exact effects_withPool rfl rfl rfl (c.pool.labels_overwrite id new)

end Client

end StridedViews
